import Stencil.Number.Numeral
import Stencil.Text.Blank
import Stencil.Value.Basic

namespace Stencil

namespace Numeral

/-- The number that a text stands for: a signed or unsigned integer of 64 bits, or else a finite
double. Blanks around the numeral do not count. -/
def number? (text : String) : Option Number :=
  let chars := Text.trim text.toList
  let integer := (integer? chars).bind fun v =>
    IntegerKind.int64.number? v <|> IntegerKind.uint64.number? v
  let double := (decimal? chars).map Decimal.toDouble |>.filter Binary.isFinite
  integer <|> double.map .double

end Numeral

namespace Value

/-- A text against a number: as numbers if the text is a comparable numeral, else as texts. -/
def compareTextNumber (s : String) (n : Number) : Ordering :=
  ((Numeral.number? s).bind fun parsed => Number.compare parsed n).getD (Ord.compare s n.text)

def compareText (s : String) : Value → Option Ordering
  | .null => none
  | .number n => some (compareTextNumber s n)
  | other => some (Ord.compare s other.canonical)

def compare : Value → Value → Option Ordering
  | .null, .null => some .eq
  | .null, _ | _, .null => none
  | .text s, other => compareText s other
  | other, .text s => (compareText s other).map Ordering.swap
  | .number l, .number r => Number.compare l r
  | .char l, .char r => some (Ord.compare l r)
  | .char c, .number n => some (Ord.compare c.toString n.text)
  | .number n, .char c => some (Ord.compare c.toString n.text).swap
  | .enumMember l, .enumMember r =>
      if l.typeName = r.typeName then some (Ord.compare l.ordinal r.ordinal) else none
  | .boolean l, .boolean r => some (Ord.compare l r)
  | .moment l, .moment r => some (l.compare r)
  | .span l, .span r => some (Ord.compare l.nanoseconds r.nanoseconds)
  | .object l, .object r => if l.identity = r.identity then some .eq else none
  | _, _ => none

/-- Null equals null only, and incomparable values differ. -/
def equals (left right : Value) : Bool :=
  compare left right == some .eq

def test (op : ComparisonOperator) (left right : Value) : Bool :=
  match op with
  | .equal => equals left right
  | .notEqual => !equals left right
  | .less => compare left right == some .lt
  | .greater => compare left right == some .gt
  | .lessEqual => (compare left right).any (· != .gt)
  | .greaterEqual => (compare left right).any (· != .lt)

end Value

end Stencil
