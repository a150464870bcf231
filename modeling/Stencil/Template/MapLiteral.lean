import Stencil.Template.Nodes
import Stencil.Text.Tokens

namespace Stencil.Template

open Reader

def keyDelimiters : List Char :=
  [' ', '\t', '\r', '\n', ',', '=']

/-- Splits a value without quotes or braces off: it ends at a blank or comma outside brackets. -/
def splitBare (depth : Nat) : List Char → List Char × List Char
  | [] => ([], [])
  | c :: rest =>
      let within (depth : Nat) :=
        let (value, after) := splitBare depth rest
        (c :: value, after)
      if c == '\x7b' || c == '(' then within (depth + 1)
      else if c == '\x7d' || c == ')' then within (depth - 1)
      else if depth == 0 && (Text.isBlank c || c == ',') then ([], c :: rest)
      else within depth

def splitValue (text : List Char) : Except Complaint (List Char × List Char) :=
  match text with
  | [] => .error .expectedValue
  | c :: rest =>
      if c == '\'' || c == '"' then
        match splitAtQuote c rest with
        | some (body, after) => .ok (c :: body ++ [c], after)
        | none => .error .unterminatedMapString
      else if c == '\x7b' then
        match splitAtBrace 0 none rest with
        | some (body, after) => .ok (c :: body ++ ['\x7d'], after)
        | none => .error .unterminatedNestedMap
      else .ok (splitBare 0 text)

def withoutEnds (text : List Char) : List Char :=
  text.tail.dropLast

/-- Takes `.to_squote` or `.to_quote`, in letters of either case, from the end of a reference
that is longer than that. -/
def splitQuoteSuffix (text : List Char) : List Char × Option Char :=
  let ends (suffix : String) : Bool :=
    suffix.length < text.length &&
      (text.drop (text.length - suffix.length)).map Char.toLower == suffix.toList
  if ends ".to_squote" then (text.take (text.length - 10), some '\'')
  else if ends ".to_quote" then (text.take (text.length - 9), some '"')
  else (text, none)

/-- The value of an entry. A complaint concerns the value as a whole, unless it arises inside a
nested map. -/
def mapValue (inner : Inner) (text : List Char) : Except Fault MapValue :=
  let refuse (complaint : Complaint) : Except Fault MapValue :=
    .error { complaint, location := { piece := text, behind := 0 } }
  match text with
  | '\'' :: _ | '"' :: _ =>
      match wholly (nodeSequence inner) (unescape (withoutEnds text)) with
      | .done found _ => .ok (.text found)
      | _ => refuse .invalidMapText
  | '\x7b' :: _ => (inner.braced text).map .map
  | '$' :: _ =>
      let (referenceText, quote) := splitQuoteSuffix text
      match wholly (reference inner) referenceText with
      | .done target _ => .ok (.reference target quote)
      | _ => refuse .invalidMapReference
  | _ =>
      if text == "true".toList then .ok (.boolean true)
      else if text == "false".toList then .ok (.boolean false)
      else
        match numeral? text with
        | some n => .ok (.number n)
        | none => refuse .unsupportedMapValue

/-- What follows the equals sign after a key, if one stands there. The key took the character
after it. -/
def afterEquals? : List Char → Option (List Char)
  | '=' :: rest => some rest
  | after =>
      match Text.trimStart after.tail with
      | '=' :: rest => some rest
      | _ => none

/-- Whether another entry, or nothing, may follow a value. -/
def separates : List Char → Bool
  | c :: _ => Text.isBlank c || c == ','
  | [] => true

/-- One entry. Where nothing but delimiters remains there is none. -/
def mapEntry (inner : Inner) : Reader MapEntry :=
  fun text =>
    if text.all Text.Tokens.defaultDelimiters.contains then missing .expectedKey text
    else
      match Text.Tokens.split? keyDelimiters text with
      | none => halting .expectedKey text
      | some (key, after) =>
          if !isIdentifier key then
            .halt {
              complaint := .keyNotIdentifier
              location := { piece := key, behind := after.length } }
          else
            match afterEquals? after with
            | none => halting .expectedEquals after.tail
            | some raw =>
                let raw := Text.trimStart raw
                match splitValue raw with
                | .error complaint => halting complaint raw
                | .ok (value, rest) =>
                    if !separates rest then halting .expectedSeparator rest
                    else
                      match mapValue inner value with
                      | .ok found => .done (.mk (String.ofList key) found) rest
                      | .error fault => .halt (fault.before rest.length)

def mapEntries (inner : Inner) (body : List Char) : Except Fault (List MapEntry) :=
  match many (mapEntry inner) body with
  | .done entries _ => .ok entries
  | .miss fault | .halt fault => .error fault

def mapLiteral (inner : Inner) : Reader (List MapEntry) :=
  fun text =>
    match text with
    | '%' :: '\x7b' :: rest =>
        match splitAtBrace 0 none rest with
        | none => halting .unterminatedMap text
        | some (body, after) =>
            match mapEntries inner body with
            | .ok entries => .done entries after
            | .error fault => .halt (fault.before (after.length + 1))
    | _ => missing .expectedWord text

def bracedEntries (inner : Inner) (text : List Char) : Except Fault (List MapEntry) :=
  (mapEntries inner (withoutEnds text)).mapError (Fault.before 1)

end Stencil.Template
