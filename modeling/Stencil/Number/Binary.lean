import Stencil.Number.Rounding

/-! Binary floating-point numbers. Every operation is carried out exactly on integers and rounded
once, to nearest with ties to even. -/

namespace Stencil

structure Format where
  /-- Bits of the significand, the leading one included. -/
  precision : Nat
  exponentWidth : Nat
  deriving DecidableEq

namespace Format

def single : Format := { precision := 24, exponentWidth := 8 }

def double : Format := { precision := 53, exponentWidth := 11 }

def bias (f : Format) : Int :=
  (Nat.pow 2 (f.exponentWidth - 1) : Int) - 1

def minExponent (f : Format) : Int :=
  2 - f.bias - f.precision

def maxExponent (f : Format) : Int :=
  f.bias + 1 - f.precision

end Format

/-- A datum of the format; `finite negative m e` stands for `± m * 2 ^ e`. -/
inductive Binary (f : Format) where
  | nan
  | infinite (negative : Bool)
  | finite (negative : Bool) (significand : Nat) (exponent : Int)
  deriving DecidableEq

abbrev Single := Binary Format.single

abbrev Double := Binary Format.double

namespace Binary

variable {f : Format}

def zero (negative : Bool) : Binary f :=
  .finite negative 0 f.minExponent

/-- The datum with the significand `m` at the exponent `e`, which is not below the least one.
A significand that rounding has carried past the precision moves to the next exponent. -/
def assemble (negative : Bool) (m : Nat) (e : Int) : Binary f :=
  let carried := m == Nat.pow 2 f.precision
  let m := if carried then m / 2 else m
  let e := if carried then e + 1 else e
  if f.maxExponent < e then .infinite negative else .finite negative m e

/-- The datum nearest to `± r`; a tie goes to the even significand. -/
def ofRatio (negative : Bool) (r : Ratio) : Binary f :=
  if r.num = 0 then zero negative
  else
    let e := max (r.binaryMagnitude + 1 - f.precision) f.minExponent
    assemble negative (r.scale 2 Nat.two_pos (-e)).round e

def ofInt (v : Int) : Binary f :=
  ofRatio (v < 0) { num := v.natAbs, den := 1 }

def magnitudeOf (m : Nat) (e : Int) : Ratio :=
  Ratio.scale { num := m, den := 1 } 2 Nat.two_pos e

/-- Beyond `10 ^ 400` every format here overflows, and below its inverse every number vanishes. -/
def decimalReach : Int := 400

def ofDecimal (negative : Bool) (digits : Nat) (exponent : Int) : Binary f :=
  let leading : Int := exponent + (Nat.toDigits 10 digits).length
  if digits = 0 ∨ leading < -decimalReach then zero negative
  else if decimalReach < leading then .infinite negative
  else ofRatio negative (Ratio.scale { num := digits, den := 1 } 10 Ratio.ten_pos exponent)

def isNaN : Binary f → Bool
  | .nan => true
  | _ => false

def isFinite : Binary f → Bool
  | .finite .. => true
  | _ => false

def isInfinite : Binary f → Bool
  | .infinite _ => true
  | _ => false

def isZero : Binary f → Bool
  | .finite _ m _ => m == 0
  | _ => false

def neg : Binary f → Binary f
  | .nan => .nan
  | .infinite negative => .infinite (!negative)
  | .finite negative m e => .finite (!negative) m e

def signed (negative : Bool) (m : Nat) : Int :=
  if negative then -(m : Int) else m

/-- The integer `k` with `± m * 2 ^ e = k * 2 ^ unit`, for a `unit` not above `e`. -/
def inUnits (negative : Bool) (m : Nat) (e unit : Int) : Int :=
  signed negative (m * Nat.pow 2 (e - unit).toNat)

def ofUnits (v unit : Int) : Binary f :=
  ofRatio (v < 0) (magnitudeOf v.natAbs unit)

def add : Binary f → Binary f → Binary f
  | .nan, _ | _, .nan => .nan
  | .infinite n, .infinite n' => if n == n' then .infinite n else .nan
  | .infinite n, .finite .. => .infinite n
  | .finite .., .infinite n => .infinite n
  | .finite n m e, .finite n' m' e' =>
      let unit := min e e'
      let sum := inUnits n m e unit + inUnits n' m' e' unit
      if sum = 0 then zero (n && n') else ofUnits sum unit

def sub (x y : Binary f) : Binary f :=
  add x y.neg

def mul : Binary f → Binary f → Binary f
  | .nan, _ | _, .nan => .nan
  | .infinite n, .infinite n' => .infinite (n != n')
  | .infinite n, .finite n' m _ => if m = 0 then .nan else .infinite (n != n')
  | .finite n m _, .infinite n' => if m = 0 then .nan else .infinite (n != n')
  | .finite n m e, .finite n' m' e' => ofRatio (n != n') (magnitudeOf (m * m') (e + e'))

def div : Binary f → Binary f → Binary f
  | .nan, _ | _, .nan => .nan
  | .infinite _, .infinite _ => .nan
  | .infinite n, .finite n' _ _ => .infinite (n != n')
  | .finite n _ _, .infinite n' => zero (n != n')
  | .finite n m e, .finite n' m' e' =>
      if h : 0 < m' then
        ofRatio (n != n') (Ratio.scale { num := m, den := m', den_pos := h } 2 Nat.two_pos (e - e'))
      else if m = 0 then .nan
      else .infinite (n != n')

/-- The remainder of the division truncated toward zero. It is exact and has the sign of the
dividend. -/
def rem : Binary f → Binary f → Binary f
  | .nan, _ | _, .nan => .nan
  | .infinite _, _ => .nan
  | .finite n m e, .infinite _ => .finite n m e
  | .finite n m e, .finite _ m' e' =>
      if m' = 0 then .nan
      else
        let unit := min e e'
        let remainder := m * Nat.pow 2 (e - unit).toNat % (m' * Nat.pow 2 (e' - unit).toNat)
        ofRatio n (magnitudeOf remainder unit)

/-- Order by value: no NaN is comparable, and both zeros are equal. -/
def compare : Binary f → Binary f → Option Ordering
  | .nan, _ | _, .nan => none
  | .infinite n, .infinite n' => some (Ord.compare n' n)
  | .infinite n, .finite .. => some (if n then .lt else .gt)
  | .finite .., .infinite n => some (if n then .gt else .lt)
  | .finite n m e, .finite n' m' e' =>
      let unit := min e e'
      some (Ord.compare (inUnits n m e unit) (inUnits n' m' e' unit))

def convert (g : Format) : Binary f → Binary g
  | .nan => .nan
  | .infinite n => .infinite n
  | .finite n m e => ofRatio n (magnitudeOf m e)

def ofBits (f : Format) (bits : Nat) : Binary f :=
  let fractionWidth := f.precision - 1
  let fraction := bits % Nat.pow 2 fractionWidth
  let field := bits / Nat.pow 2 fractionWidth % Nat.pow 2 f.exponentWidth
  let negative := bits / Nat.pow 2 (fractionWidth + f.exponentWidth) % 2 == 1
  if field = Nat.pow 2 f.exponentWidth - 1 then
    if fraction = 0 then .infinite negative else .nan
  else if field = 0 then .finite negative fraction f.minExponent
  else .finite negative (Nat.pow 2 fractionWidth + fraction) (f.minExponent + field - 1)

def toBits? (x : Binary f) : Option Nat :=
  let fractionWidth := f.precision - 1
  let word (negative : Bool) (field fraction : Nat) : Nat :=
    ((if negative then Nat.pow 2 f.exponentWidth else 0) + field) * Nat.pow 2 fractionWidth + fraction
  match x with
  | .nan => none
  | .infinite negative => some (word negative (Nat.pow 2 f.exponentWidth - 1) 0)
  | .finite negative m e =>
      if m < Nat.pow 2 fractionWidth then some (word negative 0 m)
      else some (word negative (e - f.minExponent + 1).toNat (m - Nat.pow 2 fractionWidth))

end Binary

end Stencil
