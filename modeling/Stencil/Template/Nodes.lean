import Stencil.Template.Reference

namespace Stencil.Template

open Reader

def directiveWord : Reader Directive := do
  char '#'
  (do
    char '\x7b'
    let d ← identifierAs Directive.ofWord?
    char '\x7d'
    return d) <|> identifierAs Directive.ofWord?

def directive (expected : Directive) : Reader Unit :=
  fun text =>
    match directiveWord text with
    | .done d rest => if d = expected then .done () rest else missing .expectedWord text
    | _ => missing .expectedWord text

/-- The line end right after a directive belongs to the directive. -/
def lineEnd : Reader Unit :=
  fun text =>
    match text with
    | '\r' :: '\n' :: rest => .done () rest
    | '\n' :: rest => .done () rest
    | rest => .done () rest

def afterBlockComment? : List Char → Option (List Char)
  | '*' :: '#' :: rest => some rest
  | _ :: rest => afterBlockComment? rest
  | [] => none

/-- A comment to the end of the line, or a block comment. A line comment cannot end with a
carriage return that no line feed follows. -/
def comment : Reader Unit :=
  fun text =>
    match text with
    | '#' :: '#' :: rest =>
        match rest.dropWhile fun c => c != '\n' && c != '\r' with
        | '\n' :: after => .done () after
        | '\r' :: '\n' :: after => .done () after
        | [] => .done () []
        | _ => missing .expectedWord text
    | '#' :: '*' :: rest =>
        match afterBlockComment? rest with
        | some after => .done () after
        | none => halting .unterminatedComment rest
    | _ => missing .expectedWord text

def isMarker (c : Char) : Bool :=
  c == '$' || c == '#'

def plainText : Reader String :=
  fun text =>
    match text.span (!isMarker ·) with
    | ([], _) => missing .expectedIdentifier text
    | (content, rest) => .done (String.ofList content) rest

/-- Whether a directive stands at the front that continues or ends an open `#if`. -/
def atBlockEnd (text : List Char) : Bool :=
  match directiveWord text with
  | .done d _ => d.continuesBlock
  | _ => false

/-- A marker that opens neither a reference nor a directive is text. -/
def strayMarker : Reader String :=
  fun text =>
    match text with
    | c :: rest =>
        if isMarker c && !atBlockEnd text then .done c.toString rest
        else missing .expectedWord text
    | [] => missing .expectedWord text

/-- `#set` with a plain variable, an equals sign and an expression, in brackets. -/
def setNode (inner : Inner) : Reader Node := do
  directive .set
  cut <| under .expectedSetOpening do
    spaces
    char '('
  fun opened => Reader.bind (cut <| under .expectedTarget <| lexeme (reference inner))
    (fun target =>
      if !target.path.isEmpty || target.quiet then fun _ => halting .targetNotPlain opened
      else do
        let value ← cut <| under .malformedSet do
          char '='
          let value ← inner.expression
          layout
          char ')'
          return value
        lineEnd
        return .set target.root value) opened

def ifNode (inner : Inner) : Reader Node := do
  directive .if
  inner.block

/-- One node; a comment yields none. -/
def node (inner : Inner) : Reader (Option Node) :=
  (do comment; return none)
    <|> (some <$> setNode inner)
    <|> (some <$> ifNode inner)
    <|> (do return some (.reference (← reference inner)))
    <|> (do return some (.text (← plainText)))
    <|> (do return some (.text (← strayMarker)))

def mergeTexts : List Node → List Node
  | [] => []
  | .text content :: rest =>
      match mergeTexts rest with
      | .text more :: others => .text (content ++ more) :: others
      | others => .text content :: others
  | other :: rest => other :: mergeTexts rest

/-- All nodes up to the end of the text or to a directive that continues or ends a block. -/
def nodeSequence (inner : Inner) : Reader (List Node) := do
  let found ← many (node inner)
  return mergeTexts (found.filterMap id)

def condition (inner : Inner) : Reader Expr :=
  under .malformedCondition do
    spaces
    char '('
    let value ← lexeme inner.expression
    char ')'
    lineEnd
    return value

def branch (inner : Inner) : Reader Branch := do
  let test ← condition inner
  let body ← nodeSequence inner
  return .mk test body

def conditional (inner : Inner) : Reader Node := do
  let first ← cut (branch inner)
  let others ← many (do
    directive .elseIf
    cut (branch inner))
  let otherwise ← option (do
    directive .else
    lineEnd
    nodeSequence inner)
  cut <| under .expectedEnd (directive .end)
  lineEnd
  return .conditional (first :: others) otherwise

end Stencil.Template
