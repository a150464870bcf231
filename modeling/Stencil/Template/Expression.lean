import Stencil.Template.MapLiteral

namespace Stencil.Template

open Reader

def maxOperators : Nat := 256

def parenthesized (inner : Inner) : Reader Expr := do
  char '('
  cut <| under .openExpression do
    let value ← lexeme inner.expression
    char ')'
    return value

def listLiteral (inner : Inner) : Reader Expr := do
  char '['
  cut <| under .openList do
    let items ← separated (char ',') (lexeme inner.expression)
    layout
    char ']'
    return .list items

def singleQuoted : Reader Expr := do
  let body ← quotedBody '\''
  return .literal (.text (String.ofList (unescape body)))

/-- Whether a raw string is to be read as a map literal. -/
def looksLikeMap (raw : List Char) : Bool :=
  let trimmed := Text.trim raw
  ['%', '\x7b'].isPrefixOf trimmed && ['\x7d'].isSuffixOf trimmed

def plainTexts? : List Node → Option (List String)
  | [] => some []
  | .text content :: rest => (plainTexts? rest).map (content :: ·)
  | _ :: _ => none

/-- Nodes as an expression: a plain text if there is nothing else. -/
def interpolation (found : List Node) : Expr :=
  match plainTexts? found with
  | some texts => .literal (.text (String.join texts))
  | none => .interpolated found

/-- A text between double quotes is a template, or a map literal if it looks like one. -/
def doubleQuoted (inner : Inner) : Reader Expr :=
  fun text =>
    match quotedBody '"' text with
    | .done raw rest =>
        if looksLikeMap raw then
          match wholly (lexeme (mapLiteral inner)) raw with
          | .done entries _ => .done (.map entries) rest
          | .miss fault | .halt fault => .halt (fault.before (rest.length + 1))
        else
          match wholly (nodeSequence inner) (unescape raw) with
          | .done found _ => .done (interpolation found) rest
          | _ => halting .invalidInterpolation text
    | .miss fault => .miss fault
    | .halt fault => .halt fault

/-- A numeral: digits, with a minus sign before and a fraction after them or without. -/
def numeralText : Reader (List Char) :=
  fun text =>
    let (sign, unsigned) := match text with
      | '-' :: rest => (['-'], rest)
      | rest => ([], rest)
    match unsigned.span Char.isDigit with
    | ([], _) => missing .expectedWord text
    | (integral, rest) =>
        match rest with
        | '.' :: after =>
            match after.span Char.isDigit with
            | ([], _) => .done (sign ++ integral) rest
            | (fraction, rest) => .done (sign ++ integral ++ '.' :: fraction) rest
        | _ => .done (sign ++ integral) rest

def numberLiteral : Reader Expr :=
  fun text =>
    match numeralText text with
    | .done numeral rest =>
        match numeral? numeral with
        | some n => .done (.literal (.number n)) rest
        | none => missing .expectedWord text
    | .miss fault => .miss fault
    | .halt fault => .halt fault

def keywordLiteral (chars : List Char) (value : Literal) : Reader Expr := do
  keyword chars
  return .literal value

def primary (inner : Inner) : Reader Expr :=
  lexeme <|
    parenthesized inner
      <|> (do return .map (← mapLiteral inner))
      <|> listLiteral inner
      <|> doubleQuoted inner
      <|> singleQuoted
      <|> numberLiteral
      <|> keywordLiteral "true".toList (.boolean true)
      <|> keywordLiteral "false".toList (.boolean false)
      <|> keywordLiteral "null".toList .null
      <|> (do return .reference (← reference inner))

/-- An exclamation mark that does not begin `!=`, or the word `not`. -/
def notSign : Reader Unit :=
  (do
    char '!'
    notBefore (· == '=')) <|> wordOperator .not

def negation (inner : Inner) : Reader Expr := do
  lexeme notSign
  let operand ← cut inner.operand
  return .not operand

def opposite (inner : Inner) : Reader Expr := do
  lexeme (char '-')
  let operand ← cut inner.operand
  return .negate operand

def unary (inner : Inner) : Reader Expr :=
  negation inner <|> primary inner <|> opposite inner

/-- Operands of one level with its operators in between, joined from the left. -/
def chain {ω : Type} (operand : Reader Expr) (operator : Reader ω)
    (build : ω → Expr → Expr → Expr) : Reader Expr := do
  let first ← operand
  fun start => Reader.bind
    (many do
      let op ← lexeme operator
      let right ← cut operand
      return (op, right))
    (fun steps =>
      if maxOperators < steps.length then fun _ => halting .tooManyOperators start
      else pure (steps.foldl (fun left (op, right) => build op left right) first)) start

def symbolOf {α : Type} (chars : List Char) (value : α) : Reader α := do
  word chars
  return value

def multiplicativeOperator : Reader ArithmeticOperator :=
  symbolOf ['*'] .multiply <|> symbolOf ['/'] .divide
    <|> (do
      char '%'
      notBefore (· == '\x7b')
      return .modulo)

def additiveOperator : Reader ArithmeticOperator :=
  symbolOf ['+'] .add <|> symbolOf ['-'] .subtract

def comparisonOperator : Reader ComparisonOperator :=
  symbolOf ['=', '='] .equal <|> symbolOf ['!', '='] .notEqual
    <|> symbolOf ['<', '='] .lessEqual <|> symbolOf ['>', '='] .greaterEqual
    <|> symbolOf ['<'] .less <|> symbolOf ['>'] .greater
    <|> identifierAs fun word => (WordOperator.ofWord? word).bind WordOperator.comparison?

def andOperator : Reader LogicalOperator := do
  word ['&', '&'] <|> wordOperator .and
  return .and

def orOperator : Reader LogicalOperator := do
  word ['|', '|'] <|> wordOperator .or
  return .or

def product (inner : Inner) : Reader Expr :=
  chain (unary inner) multiplicativeOperator .arithmetic

def sum (inner : Inner) : Reader Expr :=
  chain (product inner) additiveOperator .arithmetic

def comparison (inner : Inner) : Reader Expr :=
  chain (sum inner) comparisonOperator .comparison

def conjunction (inner : Inner) : Reader Expr :=
  chain (comparison inner) andOperator .logical

def disjunction (inner : Inner) : Reader Expr :=
  chain (conjunction inner) orOperator .logical

end Stencil.Template
