import Stencil.Number.Numeral
import Stencil.Template.Reader
import Stencil.Template.Tree

namespace Stencil.Template

def isIdentifierStart (c : Char) : Bool :=
  c.isAlpha || c == '_'

def isIdentifierChar (c : Char) : Bool :=
  c.isAlphanum || c == '_'

/-- A letter or underscore, then letters, digits and underscores, all of them ASCII. -/
def isIdentifier : List Char → Bool
  | c :: rest => isIdentifierStart c && rest.all isIdentifierChar
  | [] => false

def identifier : Reader String :=
  fun text =>
    match text with
    | c :: rest =>
        if isIdentifierStart c then
          .done (String.ofList (c :: rest.takeWhile isIdentifierChar))
            (rest.dropWhile isIdentifierChar)
        else Reader.missing .expectedIdentifier text
    | [] => Reader.missing .expectedIdentifier text

def keyword (chars : List Char) : Reader Unit := do
  Reader.word chars
  Reader.notBefore isIdentifierChar

def identifierAs {α : Type} (decode : String → Option α) : Reader α :=
  fun text =>
    match identifier text with
    | .done word rest =>
        match decode word with
        | some value => .done value rest
        | none => Reader.missing .expectedIdentifier text
    | .miss fault => .miss fault
    | .halt fault => .halt fault

def wordOperator (op : WordOperator) : Reader Unit :=
  identifierAs fun word => if WordOperator.ofWord? word = some op then some () else none

/-- Splits a text at the first `quote` that no backslash stands before. -/
def splitAtQuote (quote : Char) : List Char → Option (List Char × List Char)
  | [] => none
  | ['\\'] => none
  | '\\' :: c :: rest =>
      (splitAtQuote quote rest).map fun (body, after) => ('\\' :: c :: body, after)
  | c :: rest =>
      if c == quote then some ([], rest)
      else (splitAtQuote quote rest).map fun (body, after) => (c :: body, after)

/-- Splits a text at the brace that closes one already open `depth` levels further out. Braces
between quotes do not count, and neither does any character after a backslash. -/
def splitAtBrace (depth : Nat) (quote : Option Char) :
    List Char → Option (List Char × List Char)
  | [] => none
  | ['\\'] => none
  | '\\' :: c :: rest =>
      (splitAtBrace depth quote rest).map fun (body, after) => ('\\' :: c :: body, after)
  | c :: rest =>
      let within (depth : Nat) (quote : Option Char) :=
        (splitAtBrace depth quote rest).map fun (body, after) => (c :: body, after)
      match quote with
      | some q => within depth (if c == q then none else some q)
      | none =>
          if c == '\'' || c == '"' then within depth (some c)
          else if c == '\x7b' then within (depth + 1) none
          else if c == '\x7d' then
            match depth with
            | 0 => some ([], rest)
            | depth + 1 => within depth none
          else within depth none

def quotedBody (quote : Char) : Reader (List Char) :=
  fun text =>
    match text with
    | c :: rest =>
        if c == quote then
          match splitAtQuote quote rest with
          | some (body, after) => .done body after
          | none => Reader.halting .unterminatedString text
        else Reader.missing (.expected quote) text
    | [] => Reader.missing (.expected quote) text

def isEscapable (c : Char) : Bool :=
  c == '\'' || c == '"' || c == '\\'

/-- Drops the backslash before a quote or another backslash; any other backslash stays. -/
def unescape : List Char → List Char
  | '\\' :: c :: rest =>
      if isEscapable c then c :: unescape rest else '\\' :: unescape (c :: rest)
  | c :: rest => c :: unescape rest
  | [] => []

/-- The number of a decimal numeral: 32 bits if they hold it, else 64, else a double. -/
def numeral? (text : List Char) : Option Number :=
  let unsigned := match text with
    | '-' :: rest => rest
    | rest => rest
  let isDigits (digits : List Char) : Bool := !digits.isEmpty && digits.all Char.isDigit
  let double : Option Number := (Numeral.decimal? text).map fun d => .double d.toDouble
  match unsigned.span (· != '.') with
  | (integral, '.' :: fraction) =>
      if isDigits integral && isDigits fraction then double else none
  | (integral, _) =>
      if isDigits integral then
        ((Numeral.integer? text).bind fun v =>
          IntegerKind.int32.number? v <|> IntegerKind.int64.number? v) <|> double
      else none

end Stencil.Template
