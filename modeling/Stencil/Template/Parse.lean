import Stencil.Template.Expression

/-! Reading whole templates and expressions. Nesting is bounded, and the bound is shared by all
texts within texts. -/

namespace Stencil

namespace Template

open Reader

def maxNesting : Nat := 64

namespace Inner

def tooDeep {α : Type} (text : List Char) : Except Fault α :=
  .error { complaint := .nestingTooDeep, location := { piece := text, behind := 0 } }

/-- Nothing may lie further in. -/
def none : Inner where
  expression := halting .nestingTooDeep
  operand := halting .nestingTooDeep
  block := halting .nestingTooDeep
  braced := tooDeep

def around (inner : Inner) : Inner where
  expression := disjunction inner
  operand := unary inner
  block := conditional inner
  braced := bracedEntries inner

def within : Nat → Inner
  | 0 => none
  | levels + 1 => around (within levels)

def top : Inner :=
  within maxNesting

end Inner

def readNodes : Reader (List Node) :=
  nodeSequence Inner.top

def readReference : Reader Reference :=
  reference Inner.top

def readMapLiteral : Reader (List MapEntry) :=
  mapLiteral Inner.top

/-- The complaint about text that no node begins. -/
def strayComplaint (rest : List Char) : Complaint :=
  match directiveWord rest with
  | .done d _ => .strayDirective d
  | _ => .unexpectedInput

def parseExpression (source : String) : Except ParseError Expr :=
  let text := source.toList
  match wholly (lexeme Inner.top.expression) text with
  | .done value _ => .ok value
  | .miss fault | .halt fault => .error (fault.toError text)

end Template

def Template.parse (label source : String) : Except Template.ParseError Template :=
  let text := source.toList
  match Template.readNodes text with
  | .done nodes [] => .ok { label, nodes }
  | .done _ rest =>
      .error (.ofLocation text { piece := rest, behind := 0 } (Template.strayComplaint rest).text)
  | .miss fault | .halt fault => .error (fault.toError text)

end Stencil
