import Stencil.Template.Directive
import Stencil.Text.Quoted

namespace Stencil.Template

inductive Complaint where
  | expected (c : Char)
  | expectedWord
  | expectedIdentifier
  | expectedEndOfText
  | nestingTooDeep
  | tooManyOperators
  | unterminatedString
  | openExpression
  | openList
  | openArguments
  | invalidInterpolation
  | unterminatedMap
  | expectedKey
  | keyNotIdentifier
  | expectedEquals
  | expectedValue
  | unterminatedMapString
  | unterminatedNestedMap
  | expectedSeparator
  | invalidMapText
  | invalidMapReference
  | unsupportedMapValue
  | unterminatedComment
  | expectedSetOpening
  | expectedTarget
  | targetNotPlain
  | malformedSet
  | malformedCondition
  | expectedEnd
  | strayDirective (d : Directive)
  | unexpectedInput
  deriving DecidableEq, Repr

namespace Complaint

def text : Complaint → String
  | .expected c => s!"expected '{c}'"
  | .expectedWord => "invalid syntax (Tag)"
  | .expectedIdentifier => "invalid syntax (TakeWhile1)"
  | .expectedEndOfText => "invalid syntax (End of file)"
  | .nestingTooDeep => "nesting too deep"
  | .tooManyOperators => "too many operators in one expression"
  | .unterminatedString => "unterminated string literal"
  | .openExpression => "expected ')' to close the expression"
  | .openList => "expected ']' to close the list"
  | .openArguments => "expected ')' to close the argument list"
  | .invalidInterpolation => "invalid interpolated string"
  | .unterminatedMap => "unterminated map literal"
  | .expectedKey => "expected a map key"
  | .keyNotIdentifier => "map keys must be identifiers"
  | .expectedEquals => "expected '=' after map key"
  | .expectedValue => "expected a map value"
  | .unterminatedMapString => "unterminated string in map literal"
  | .unterminatedNestedMap => "unterminated nested map"
  | .expectedSeparator => "expected ',' or whitespace between map entries"
  | .invalidMapText => "invalid text in map value"
  | .invalidMapReference => "invalid reference in map value"
  | .unsupportedMapValue => "unsupported map value"
  | .unterminatedComment => "unterminated block comment"
  | .expectedSetOpening => "expected '(' after #set"
  | .expectedTarget => "expected a variable to assign"
  | .targetNotPlain => "assignment target must be a plain variable"
  | .malformedSet => "malformed #set directive"
  | .malformedCondition => "malformed condition"
  | .expectedEnd => "expected #end to close #if"
  | .strayDirective d => s!"#{d.word} without an open #if"
  | .unexpectedInput => "unexpected input"

/-- Complaints that name a lexeme only; a surrounding construct puts its own in their place. -/
def isBare : Complaint → Bool
  | .expected _ | .expectedWord | .expectedIdentifier | .expectedEndOfText => true
  | _ => false

end Complaint

/-- A piece of a text: `piece` with `behind` characters of the text after it. -/
structure Location where
  piece : List Char
  behind : Nat
  deriving DecidableEq, Repr

structure Fault where
  complaint : Complaint
  location : Location
  deriving DecidableEq, Repr

namespace Fault

/-- The fault as a complaint of the surrounding construct, if it has none of its own. -/
def under (complaint : Complaint) (fault : Fault) : Fault :=
  if fault.complaint.isBare then { fault with complaint } else fault

/-- The fault of a piece as a fault of a text that has `n` more characters after the piece. -/
def before (n : Nat) (fault : Fault) : Fault :=
  { fault with location.behind := fault.location.behind + n }

end Fault

/-- Line and column, both from one. -/
structure Position where
  line : Nat
  column : Nat
  deriving DecidableEq, Repr

/-- The position that follows `consumed`. Lines end with line feeds and columns count
characters. -/
def Position.after (consumed : List Char) : Position :=
  { line := consumed.count '\n' + 1
    column := (consumed.reverse.takeWhile (· != '\n')).length + 1 }

inductive ParseError where
  | invalid (reason found : String) (position : Position)
  | unexpectedEnd (reason : String)
  deriving DecidableEq, Repr

namespace ParseError

def quotedLength : Nat := 16

/-- The error at a location of `source`: the end of the text if the located piece is empty. -/
def ofLocation (source : List Char) (location : Location) (reason : String) : ParseError :=
  if location.piece.isEmpty then .unexpectedEnd reason
  else
    let start := source.length - (location.piece.length + location.behind)
    let line := location.piece.takeWhile fun c => c != '\n' && c != '\r'
    .invalid reason (String.ofList (line.take quotedLength)) (.after (source.take start))

def reason : ParseError → String
  | .invalid reason .. => reason
  | .unexpectedEnd reason => reason

def message : ParseError → String
  | .invalid reason found position =>
      let quoted := String.ofList (Text.quoted found.toList)
      s!"{reason} at line {position.line}, column {position.column} (found {quoted})"
  | .unexpectedEnd reason => s!"unexpected end of template: {reason}"

end ParseError

def Fault.toError (source : List Char) (fault : Fault) : ParseError :=
  .ofLocation source fault.location fault.complaint.text

end Stencil.Template
