import Stencil.Number.Basic

namespace Stencil.Template

inductive Literal where
  | number (value : Number)
  | text (value : String)
  | boolean (value : Bool)
  | null
  deriving DecidableEq

mutual

inductive Node where
  | text (content : String)
  | reference (reference : Reference)
  | set (target : String) (value : Expr)
  | conditional (branches : List Branch) (otherwise : Option (List Node))

inductive Branch where
  | mk (condition : Expr) (body : List Node)

/-- A variable with a chain of accessors. The literal is its text in the source. -/
inductive Reference where
  | mk (quiet : Bool) (root : String) (path : List Accessor) (literal : String)

inductive Accessor where
  | property (name : String)
  | method (name : String) (arguments : List Expr)

inductive Expr where
  | literal (value : Literal)
  | reference (reference : Reference)
  /-- A text that is rendered as a template. -/
  | interpolated (nodes : List Node)
  | map (entries : List MapEntry)
  | list (items : List Expr)
  | arithmetic (op : ArithmeticOperator) (left right : Expr)
  | comparison (op : ComparisonOperator) (left right : Expr)
  | logical (op : LogicalOperator) (left right : Expr)
  | not (operand : Expr)
  | negate (operand : Expr)

inductive MapEntry where
  | mk (key : String) (value : MapValue)

inductive MapValue where
  | text (nodes : List Node)
  | number (value : Number)
  | boolean (value : Bool)
  /-- The text of the value is put between the quotes, if there are any. -/
  | reference (reference : Reference) (quote : Option Char)
  | map (entries : List MapEntry)

end

namespace Reference

def quiet : Reference → Bool
  | .mk quiet .. => quiet

def root : Reference → String
  | .mk _ root .. => root

def path : Reference → List Accessor
  | .mk _ _ path _ => path

def literal : Reference → String
  | .mk _ _ _ literal => literal

end Reference

def Branch.condition : Branch → Expr
  | .mk condition _ => condition

def Branch.body : Branch → List Node
  | .mk _ body => body

def MapEntry.key : MapEntry → String
  | .mk key _ => key

def MapEntry.value : MapEntry → MapValue
  | .mk _ value => value

instance : Inhabited Expr :=
  ⟨.literal .null⟩

end Stencil.Template

namespace Stencil

structure Template where
  label : String
  nodes : List Template.Node

end Stencil
