import Stencil.Template.Lexeme

namespace Stencil.Template

/-- The readers of what lies one nesting level further in. -/
structure Inner where
  expression : Reader Expr
  operand : Reader Expr
  block : Reader Node
  braced : List Char → Except Fault (List MapEntry)

open Reader

def arguments (inner : Inner) : Reader (List Expr) := do
  char '('
  cut <| under .openArguments do
    let items ← separated (char ',') (lexeme inner.expression)
    layout
    char ')'
    return items

def accessor (inner : Inner) : Reader Accessor := do
  char '.'
  let name ← identifier
  match ← option (arguments inner) with
  | some items => return .method name items
  | none => return .property name

def referenceBody (inner : Inner) : Reader (String × List Accessor) := do
  let root ← identifier
  let path ← many (accessor inner)
  return (root, path)

def bracedBody (inner : Inner) : Reader (String × List Accessor) := do
  char '\x7b'
  let body ← referenceBody inner
  char '\x7d'
  return body

/-- A dollar sign, an exclamation mark for a quiet reference, and the body, in braces or not. -/
def reference (inner : Inner) : Reader Reference := do
  let (literal, quiet, root, path) ← spanned do
    char '$'
    let mark ← option (char '!')
    let body ← bracedBody inner <|> referenceBody inner
    return (mark.isSome, body)
  return .mk quiet root path (String.ofList literal)

end Stencil.Template
