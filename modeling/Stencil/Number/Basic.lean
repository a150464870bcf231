import Stencil.Number.General
import Stencil.Operator

namespace Stencil

inductive Width where
  | w8
  | w16
  | w32
  | w64
  deriving DecidableEq, Hashable, Repr

def Width.bits : Width → Nat
  | .w8 => 8
  | .w16 => 16
  | .w32 => 32
  | .w64 => 64

structure IntegerKind where
  unsigned : Bool
  width : Width
  deriving DecidableEq, Hashable, Repr

namespace IntegerKind

def least (k : IntegerKind) : Int :=
  if k.unsigned then 0 else -(Nat.pow 2 (k.width.bits - 1) : Int)

def greatest (k : IntegerKind) : Int :=
  (if k.unsigned then Nat.pow 2 k.width.bits else Nat.pow 2 (k.width.bits - 1) : Nat) - 1

def Holds (k : IntegerKind) (v : Int) : Prop :=
  k.least ≤ v ∧ v ≤ k.greatest

instance (k : IntegerKind) (v : Int) : Decidable (k.Holds v) :=
  inferInstanceAs (Decidable (_ ∧ _))

def name (k : IntegerKind) : String :=
  (if k.unsigned then "UInt" else "Int") ++ k.width.bits.repr

def int32 : IntegerKind := { unsigned := false, width := .w32 }

def int64 : IntegerKind := { unsigned := false, width := .w64 }

def uint64 : IntegerKind := { unsigned := true, width := .w64 }

def all : List IntegerKind :=
  [false, true].flatMap fun unsigned =>
    [Width.w8, .w16, .w32, .w64].map fun width => { unsigned, width }

end IntegerKind

inductive Number where
  | integer (kind : IntegerKind) (value : Int) (inRange : kind.Holds value)
  | single (value : Single)
  | double (value : Double)
  deriving DecidableEq

/-- The rungs of promotion, lowest first. -/
inductive NumberClass where
  | signed
  | unsigned
  | single
  | double
  deriving DecidableEq, Repr

def NumberClass.rung : NumberClass → Nat
  | .signed => 0
  | .unsigned => 1
  | .single => 2
  | .double => 3

def NumberClass.join (a b : NumberClass) : NumberClass :=
  if a.rung ≤ b.rung then b else a

def NumberClass.name : NumberClass → String
  | .signed => "Signed"
  | .unsigned => "Unsigned"
  | .single => "Single"
  | .double => "Double"

def IntegerKind.numberClass (k : IntegerKind) : NumberClass :=
  if k.unsigned then .unsigned else .signed

def IntegerKind.number? (k : IntegerKind) (v : Int) : Option Number :=
  if h : k.Holds v then some (.integer k v h) else none

namespace Number

def numberClass : Number → NumberClass
  | .integer kind .. => kind.numberClass
  | .single _ => .single
  | .double _ => .double

def bits : Number → Nat
  | .integer kind .. => kind.width.bits
  | .single _ => 32
  | .double _ => 64

def integer? : Number → Option Int
  | .integer _ v _ => some v
  | .single _ | .double _ => none

def toDouble : Number → Double
  | .integer _ v _ => .ofInt v
  | .single x => x.convert .double
  | .double x => x

def toSingle : Number → Single
  | .integer _ v _ => .ofInt v
  | .single x => x
  | .double x => x.convert .single

def isZero : Number → Bool
  | .integer _ v _ => v == 0
  | .single x => x.isZero
  | .double x => x.isZero

/-- The integer `v` in the narrowest kind of at least `bits` bits that holds it, 32 and 64 being
the choices; a double if neither does. -/
def narrow (unsigned : Bool) (bits : Nat) (v : Int) : Number :=
  let in32 := if bits ≤ 32 then IntegerKind.number? { unsigned, width := .w32 } v else none
  let in64 := IntegerKind.number? { unsigned, width := .w64 } v
  (in32 <|> in64).getD (.double (.ofInt v))

/-- The exact result on integers: quotients are truncated toward zero, and a remainder has the
sign of the dividend. -/
def applyInt : ArithmeticOperator → Int → Int → Int
  | .add, l, r => l + r
  | .subtract, l, r => l - r
  | .multiply, l, r => l * r
  | .divide, l, r => l.tdiv r
  | .modulo, l, r => l.tmod r

def applyBinary {f : Format} : ArithmeticOperator → Binary f → Binary f → Binary f
  | .add, l, r => l.add r
  | .subtract, l, r => l.sub r
  | .multiply, l, r => l.mul r
  | .divide, l, r => l.div r
  | .modulo, l, r => l.rem r

/-- Results of 128 signed bits are kept exactly before they are narrowed. -/
def FitsExact (v : Int) : Prop :=
  -(Nat.pow 2 127 : Int) ≤ v ∧ v < (Nat.pow 2 127 : Int)

instance (v : Int) : Decidable (FitsExact v) :=
  inferInstanceAs (Decidable (_ ∧ _))

/-- `left op right` in the wider class of the two; nothing when the divisor is zero. -/
def apply (op : ArithmeticOperator) (left right : Number) : Option Number :=
  if (op = .divide ∨ op = .modulo) ∧ right.isZero then none
  else
    match left, right with
    | .integer k l _, .integer k' r _ =>
        let exact := applyInt op l r
        if FitsExact exact then
          some (narrow (k.unsigned || k'.unsigned) (max k.width.bits k'.width.bits) exact)
        else some (.double (applyBinary op left.toDouble right.toDouble))
    | _, _ =>
        match left.numberClass.join right.numberClass with
        | .double => some (.double (applyBinary op left.toDouble right.toDouble))
        | _ => some (.single (applyBinary op left.toSingle right.toSingle))

def negate : Number → Number
  | .integer kind v _ => narrow false kind.width.bits (-v)
  | .single x => .single x.neg
  | .double x => .double x.neg

def compare (left right : Number) : Option Ordering :=
  match left, right with
  | .integer _ l _, .integer _ r _ => some (Ord.compare l r)
  | _, _ =>
      match left.numberClass.join right.numberClass with
      | .double => left.toDouble.compare right.toDouble
      | _ => left.toSingle.compare right.toSingle

def singleDigits : Nat := 7

def doubleDigits : Nat := 15

def text : Number → String
  | .integer _ v _ => v.repr
  | .single x => x.general singleDigits
  | .double x => x.general doubleDigits

end Number

end Stencil
