import Stencil.Render.Context
import Stencil.Render.Error
import Stencil.Template.Tree
import Stencil.Value.Compare

/-! Evaluation of expressions and rendering of nodes. Operand errors inside a template count as
null and the first of them is reported at the end; any other error stops the render, and what was
written and bound before it stays. -/

namespace Stencil

open Template

structure Scope where
  context : Context
  cache : ResolutionCache

abbrev Eval (α : Type) : Type :=
  ExceptT EvalError (StateM Scope) α

structure Setting where
  registry : Registry
  strict : Bool

/-- A sink for text says whether it takes a piece after the pieces it has, latest first. -/
structure Sink where
  admits : List String → String → Bool

namespace Sink

def unlimited : Sink :=
  { admits := fun _ _ => true }

/-- Takes no piece that would make the whole text longer than `limit` bytes. -/
def ofByteLimit (limit : Nat) : Sink :=
  { admits := fun written piece =>
      written.foldr (fun p size => p.utf8ByteSize + size) piece.utf8ByteSize ≤ limit }

end Sink

structure Progress where
  scope : Scope
  /-- The pieces written, latest first. -/
  written : List String
  operandError : Option EvalError

abbrev Rendering (α : Type) : Type :=
  ExceptT EvalError (StateM Progress) α

namespace Progress

def start (scope : Scope) : Progress :=
  { scope, written := [], operandError := none }

def text (p : Progress) : String :=
  String.join p.written.reverse

end Progress

namespace Eval

def lookup (name : String) : Eval (Option Value) :=
  fun scope => (.ok (scope.context.get? name), scope)

def call (setting : Setting) (receiver : Value) (name : String) (arguments : List Value) :
    Eval Value :=
  fun scope =>
    let (result, cache) := setting.registry.call scope.cache receiver name arguments
    (result.mapError .method, { scope with cache })

/-- A call of a member without arguments; nothing if there is none of that name. -/
def call? (setting : Setting) (receiver : Value) (name : String) : Eval (Option Value) :=
  fun scope =>
    match call setting receiver name [] scope with
    | (.ok value, scope) => (.ok (some value), scope)
    | (.error (.method error), scope) =>
        (if error.isNotFound then .ok none else .error (.method error), scope)
    | (.error error, scope) => (.error error, scope)

/-- An entry of a map, or else a member without arguments, or else null. -/
def property (setting : Setting) (receiver : Value) (name : String) : Eval Value := do
  let entry := match receiver with
    | .map entries => Entries.find? name entries
    | _ => none
  match entry with
  | some value => return value
  | none => return (← call? setting receiver name).getD .null

/-- The text of a value in a template: host objects may have a member for it. -/
def textOf (setting : Setting) (value : Value) : Eval String :=
  match value with
  | .object host => do
      match ← call? setting value "ToString" with
      | some text => return text.canonical
      | none => return host.typeName
  | other => return other.canonical

/-- Null operands and zero divisors make the result null. -/
def arithmetic (op : ArithmeticOperator) (left right : Value) : Eval Value :=
  match left, right with
  | .null, _ | _, .null => return .null
  | .number l, .number r => return ((Number.apply op l r).map .number).getD .null
  | left, right => throw (.invalidOperand op left.typeName right.typeName)

def negate : Value → Eval Value
  | .null => return .null
  | .number n => return .number n.negate
  | other => throw (.invalidUnaryOperand other.typeName)

/-- The text that a rendering writes from nothing. Its operand errors count. -/
def ofRendering (rendering : Rendering Unit) : Eval String :=
  fun scope =>
    match rendering (.start scope) with
    | (.error error, p) => (.error error, p.scope)
    | (.ok _, p) =>
        match p.operandError with
        | some error => (.error error, p.scope)
        | none => (.ok p.text, p.scope)

end Eval

namespace Rendering

def write (sink : Sink) (piece : String) : Rendering Unit :=
  fun p =>
    if sink.admits p.written piece then (.ok (), { p with written := piece :: p.written })
    else (.error .output, p)

def bind (name : String) (value : Value) : Rendering Unit :=
  fun p =>
    (.ok (), { p with scope.context := p.scope.context.put name value })

def ofEval {α : Type} (e : Eval α) : Rendering α :=
  fun p =>
    let (result, scope) := e p.scope
    (result, { p with scope })

/-- The value of an evaluation, or null where an operand is wrong. -/
def absorbing (e : Eval Value) : Rendering Value :=
  fun p =>
    match e p.scope with
    | (.ok value, scope) => (.ok value, { p with scope })
    | (.error error, scope) =>
        if error.isOperandError then
          (.ok .null, { p with scope, operandError := p.operandError <|> some error })
        else (.error error, { p with scope })

/-- Writes the value of a reference, or what stands for one that yields nothing. -/
def writeReference (setting : Setting) (sink : Sink) (r : Reference) (value : Value) :
    Rendering Unit := do
  if !value.isNull then
    write sink (← ofEval (Eval.textOf setting value))
  else if r.quiet then
    return
  else if setting.strict then
    throw (.undefinedReference r.literal)
  else
    write sink r.literal

end Rendering

def Template.Literal.value : Literal → Value
  | .number n => .number n
  | .text s => .text s
  | .boolean b => .boolean b
  | .null => .null

/-- A value between quotes, as text; null stays null. -/
def Eval.quoted (setting : Setting) (quote : Option Char) (value : Value) : Eval Value :=
  match quote, value with
  | _, .null => return .null
  | none, value => return value
  | some quote, value => do
      return .text (quote.toString ++ (← Eval.textOf setting value) ++ quote.toString)

mutual

def Template.Expr.eval (setting : Setting) : Expr → Eval Value
  | .literal literal => return literal.value
  | .reference r => r.eval setting
  | .interpolated nodes => return .text (← Eval.ofRendering (renderNodes setting .unlimited nodes))
  | .map entries => return .map (← evalEntries setting [] entries)
  | .list items => return .list (← evalAll setting items)
  | .arithmetic op left right => do
      let left ← left.eval setting
      let right ← right.eval setting
      Eval.arithmetic op left right
  | .comparison op left right => do
      let left ← left.eval setting
      let right ← right.eval setting
      return .boolean (Value.test op left right)
  | .logical .and left right => do
      if (← left.eval setting).isTruthy then return .boolean (← right.eval setting).isTruthy
      else return .boolean false
  | .logical .or left right => do
      if (← left.eval setting).isTruthy then return .boolean true
      else return .boolean (← right.eval setting).isTruthy
  | .not operand => return .boolean !(← operand.eval setting).isTruthy
  | .negate operand => do Eval.negate (← operand.eval setting)

def Template.evalAll (setting : Setting) : List Expr → Eval (List Value)
  | [] => return []
  | item :: rest => do
      let value ← item.eval setting
      return value :: (← evalAll setting rest)

/-- The value of a reference: null as soon as anything on its path is missing. -/
def Template.Reference.eval (setting : Setting) : Reference → Eval Value
  | .mk _ root path _ => do
      match ← Eval.lookup root with
      | none => return .null
      | some value => follow setting path value

def Template.follow (setting : Setting) : List Accessor → Value → Eval Value
  | [], current => return current
  | .property name :: rest, current => do
      if current.isNull then return .null
      follow setting rest (← Eval.property setting current name)
  | .method name arguments :: rest, current => do
      if current.isNull then return .null
      let arguments ← evalAll setting arguments
      follow setting rest (← Eval.call setting current name arguments)

/-- The entries of a map literal after `done`; a repeated key keeps its first place. -/
def Template.evalEntries (setting : Setting) (done : Entries Value) :
    List MapEntry → Eval (Entries Value)
  | [] => return done
  | .mk key value :: rest => do
      let value ← value.eval setting
      evalEntries setting (done.put key value) rest

def Template.MapValue.eval (setting : Setting) : MapValue → Eval Value
  | .text nodes => return .text (← Eval.ofRendering (renderNodes setting .unlimited nodes))
  | .number n => return .number n
  | .boolean b => return .boolean b
  | .reference r quote => do Eval.quoted setting quote (← r.eval setting)
  | .map entries => return .map (← evalEntries setting [] entries)

def Template.renderNodes (setting : Setting) (sink : Sink) : List Node → Rendering Unit
  | [] => return
  | .text content :: rest => do
      Rendering.write sink content
      renderNodes setting sink rest
  | .reference r :: rest => do
      Rendering.writeReference setting sink r (← Rendering.absorbing (r.eval setting))
      renderNodes setting sink rest
  | .set target value :: rest => do
      Rendering.bind target (← Rendering.absorbing (value.eval setting))
      renderNodes setting sink rest
  | .conditional branches none :: rest => do
      let _ ← renderBranches setting sink branches
      renderNodes setting sink rest
  | .conditional branches (some otherwise) :: rest => do
      if !(← renderBranches setting sink branches) then renderNodes setting sink otherwise
      renderNodes setting sink rest

/-- Renders the first branch whose condition holds and says whether there was one. -/
def Template.renderBranches (setting : Setting) (sink : Sink) : List Branch → Rendering Bool
  | [] => return false
  | .mk condition body :: rest => do
      if (← Rendering.absorbing (condition.eval setting)).isTruthy then
        renderNodes setting sink body
        return true
      else renderBranches setting sink rest

end

structure Outcome where
  result : Except EvalError Unit
  pieces : List String
  context : Context
  cache : ResolutionCache

def Outcome.text (o : Outcome) : String :=
  String.join o.pieces

/-- Renders nodes to a sink. An operand error is the result if nothing worse happened. -/
def Template.renderWith (setting : Setting) (sink : Sink) (nodes : List Node) (scope : Scope) :
    Outcome :=
  let (result, p) := renderNodes setting sink nodes (.start scope)
  { result := match result, p.operandError with
      | .error error, _ => .error error
      | .ok _, some error => .error error
      | .ok _, none => .ok ()
    pieces := p.written.reverse
    context := p.scope.context
    cache := p.scope.cache }

end Stencil
