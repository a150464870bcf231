import Stencil.Entries
import Stencil.Number.Basic
import Stencil.Value.Moment

namespace Stencil

structure EnumMember where
  typeName : String
  name : String
  ordinal : Int
  deriving DecidableEq, Repr

/-- An opaque host value. Two values are the same object when their identities agree; `payload`
names the kind of host data behind the object. -/
structure HostObject where
  typeName : String
  identity : Nat
  payload : String
  deriving DecidableEq, Repr

inductive Value where
  | null
  | boolean (value : Bool)
  | number (value : Number)
  | char (value : Char)
  | text (value : String)
  | enumMember (value : EnumMember)
  | moment (value : Moment)
  | span (value : Span)
  | list (items : List Value)
  | map (entries : List (String × Value))
  | object (value : HostObject)

instance : Inhabited Value :=
  ⟨.null⟩

inductive TypeTag where
  | null
  | boolean
  | integer (kind : IntegerKind)
  | single
  | double
  | char
  | text
  | enumeration (name : String)
  | moment
  | span
  | list
  | map
  | object (name : String)
  deriving DecidableEq, Hashable, Repr

namespace TypeTag

def name : TypeTag → String
  | .null => "Null"
  | .boolean => "Boolean"
  | .integer kind => kind.name
  | .single => "Single"
  | .double => "Double"
  | .char => "Char"
  | .text => "String"
  | .enumeration name => name
  | .moment => "DateTime"
  | .span => "TimeSpan"
  | .list => "List"
  | .map => "Map"
  | .object name => name

def plain : List TypeTag :=
  [.null, .boolean] ++ IntegerKind.all.map .integer ++
    [.single, .double, .char, .text, .moment, .span, .list, .map]

def ofName? (name : String) : Option TypeTag :=
  plain.find? (·.name == name)

def isNumeric : TypeTag → Bool
  | .integer _ | .single | .double => true
  | _ => false

end TypeTag

def Number.tag : Number → TypeTag
  | .integer kind .. => .integer kind
  | .single _ => .single
  | .double _ => .double

namespace Value

def tag : Value → TypeTag
  | .null => .null
  | .boolean _ => .boolean
  | .number n => n.tag
  | .char _ => .char
  | .text _ => .text
  | .enumMember member => .enumeration member.typeName
  | .moment _ => .moment
  | .span _ => .span
  | .list _ => .list
  | .map _ => .map
  | .object host => .object host.typeName

def typeName (v : Value) : String :=
  v.tag.name

def isNull : Value → Bool
  | .null => true
  | _ => false

/-- Null and `false` are false, everything else is true. -/
def isTruthy : Value → Bool
  | .null | .boolean false => false
  | _ => true

def int32? (v : Int) : Option Value :=
  (IntegerKind.int32.number? v).map .number

/-- The value of a literal integer: 32 bits if they hold it, else 64. -/
def ofInt (v : Int) : Value :=
  .number (Number.narrow false 32 v)

mutual

def canonical : Value → String
  | .null => ""
  | .boolean b => if b then "true" else "false"
  | .number n => n.text
  | .char c => c.toString
  | .text s => s
  | .enumMember member => member.name
  | .moment m => m.text
  | .span s => s.text
  | .list items => "[" ++ ", ".intercalate (canonicalItems items) ++ "]"
  | .map entries => "\x7b" ++ ", ".intercalate (canonicalEntries entries) ++ "\x7d"
  | .object host => host.typeName

def canonicalItems : List Value → List String
  | [] => []
  | item :: rest => canonical item :: canonicalItems rest

def canonicalEntries : List (String × Value) → List String
  | [] => []
  | (key, value) :: rest => (key ++ "=" ++ canonical value) :: canonicalEntries rest

end

end Value

end Stencil
