import Stencil.Json.Numeral
import Stencil.Text.Blank
import Stencil.Text.Utf16

/-! JSON documents. Reading settles the grammar only: numerals stay as written, texts are code
units with or without a meaning, and objects keep repeated members. -/

namespace Stencil.Json

inductive Document where
  | null
  | boolean (value : Bool)
  | number (numeral : Numeral)
  | text (units : List Nat)
  | array (items : List Document)
  | object (members : List (List Nat × Document))

instance : Inhabited Document :=
  ⟨.null⟩

abbrev Scan (α : Type) := StateT (List Char) Option α

namespace Scan

variable {α : Type}

def blanks : Scan Unit :=
  modify (·.dropWhile Text.isLayout)

def next : Scan Char := do
  match ← get with
  | c :: rest =>
      set rest
      return c
  | [] => failure

def takeWhile (p : Char → Bool) : Scan (List Char) :=
  modifyGet (·.span p)

def optional (chars : List Char) : Scan (Option Char) := do
  match ← get with
  | c :: rest =>
      if chars.contains c then
        set rest
        return some c
      else return none
  | [] => return none

def expect (chars : List Char) : Scan Unit := do
  let text ← get
  guard (chars.isPrefixOf text)
  set (text.drop chars.length)

def digits : Scan (List Char) := do
  let digits ← takeWhile Char.isDigit
  guard !digits.isEmpty
  return digits

def integral : Scan (List Char) := do
  let digits ← digits
  guard (digits.head? != some '0' || digits.length == 1)
  return digits

def fraction : Scan (List Char) := do
  match ← optional ['.'] with
  | some _ => digits
  | none => return []

def exponent : Scan (Option Int) := do
  match ← optional ['e', 'E'] with
  | none => return none
  | some _ =>
      let sign ← optional ['+', '-']
      let magnitude := Stencil.Numeral.value (← digits)
      return some (if sign = some '-' then -(magnitude : Int) else magnitude)

def numeral : Scan Numeral := do
  let sign ← optional ['-']
  return {
    negative := sign.isSome
    integral := ← integral
    fraction := ← fraction
    exponent := ← exponent }

def hexDigit? (c : Char) : Option Nat :=
  if c.isDigit then some (c.toNat - '0'.toNat)
  else if 'a' ≤ c ∧ c ≤ 'f' then some (c.toNat - 'a'.toNat + 10)
  else if 'A' ≤ c ∧ c ≤ 'F' then some (c.toNat - 'A'.toNat + 10)
  else none

def hexValue? (digits : List Char) : Option Nat :=
  digits.foldlM (fun n c => (16 * n + ·) <$> hexDigit? c) 0

def escaped? : Char → Option Char
  | '"' => some '"'
  | '\\' => some '\\'
  | '/' => some '/'
  | 'b' => some '\x08'
  | 'f' => some '\x0c'
  | 'n' => some '\n'
  | 'r' => some '\r'
  | 't' => some '\t'
  | _ => none

/-- The code units up to the closing quote, and the text behind it. Control characters have to be
escaped. -/
def unitsOf? : List Char → Option (List Nat × List Char)
  | '"' :: rest => some ([], rest)
  | '\\' :: 'u' :: a :: b :: c :: d :: rest => do
      let unit ← hexValue? [a, b, c, d]
      let (units, rest) ← unitsOf? rest
      return (unit :: units, rest)
  | '\\' :: c :: rest => do
      let meant ← escaped? c
      let (units, rest) ← unitsOf? rest
      return (Text.Utf16.units meant ++ units, rest)
  | c :: rest => do
      guard (' ' ≤ c)
      let (units, rest) ← unitsOf? rest
      return (Text.Utf16.units c ++ units, rest)
  | [] => none

def text : Scan (List Nat) := do
  expect ['"']
  unitsOf?

/-- Items with commas in between up to a closing bracket, at most as many as `budget` has
characters. -/
def itemsWithin (closing : Char) (item : Scan α) : List Char → Scan (List α)
  | [] => failure
  | _ :: budget => do
      let value ← item
      blanks
      match ← next with
      | ',' => return value :: (← itemsWithin closing item budget)
      | c =>
          guard (c == closing)
          return [value]

def bracketed (opening closing : Char) (item : Scan α) : Scan (List α) := do
  expect [opening]
  blanks
  match ← optional [closing] with
  | some _ => return []
  | none => itemsWithin closing item (← get)

def member (value : Scan α) : Scan (List Nat × α) := do
  blanks
  let name ← text
  blanks
  expect [':']
  return (name, ← value)

/-- A document of at most `levels` levels, with blanks before it. -/
def document : Nat → Scan Document
  | 0 => failure
  | levels + 1 => do
      blanks
      match (← get).head? with
      | some '[' => .array <$> bracketed '[' ']' (document levels)
      | some '\x7b' => .object <$> bracketed '\x7b' '\x7d' (member (document levels))
      | some '"' => .text <$> text
      | some 'n' => (fun _ => .null) <$> expect ['n', 'u', 'l', 'l']
      | some 't' => (fun _ => .boolean true) <$> expect ['t', 'r', 'u', 'e']
      | some 'f' => (fun _ => .boolean false) <$> expect ['f', 'a', 'l', 's', 'e']
      | _ => .number <$> numeral

end Scan

/-- The document that a whole text stands for. Every level takes a character, so there are no more
levels than characters. -/
def Document.ofText? (source : String) : Option Document := do
  let text := source.toList
  let (document, rest) ← Scan.document text.length text
  guard (rest.all Text.isLayout)
  return document

end Stencil.Json
