namespace Stencil.Text

structure Tokens where
  source : List Char
  /-- The bytes of `source` that have been taken. -/
  position : Nat
  delimiters : List Char
  /-- The delimiter that ended the latest token, if one did. -/
  lastDelimiter : Option Char

/-- No token remains: only delimiters have not been taken yet. -/
structure Tokens.Exhausted where
  consumed : Nat
  length : Nat

namespace Tokens

def defaultDelimiters : List Char :=
  [' ', '\t', '\n', '\r', '\x0c']

def ofText (source delimiters : List Char) : Tokens :=
  { source, position := 0, delimiters, lastDelimiter := none }

def byteLength (text : List Char) : Nat :=
  text.foldr (fun c size => c.utf8Size + size) 0

/-- The characters in front of a byte position and those from there on. There is no such position
inside of a character or behind the end. -/
def splitAtByte? : Nat → List Char → Option (List Char × List Char)
  | 0, text => some ([], text)
  | _ + 1, [] => none
  | n + 1, c :: rest =>
      if c.utf8Size ≤ n + 1 then
        (splitAtByte? (n + 1 - c.utf8Size) rest).map fun (front, back) => (c :: front, back)
      else none

/-- What has not been taken yet, where the position is one between two characters. -/
def rest (tokens : Tokens) : List Char :=
  ((splitAtByte? tokens.position tokens.source).map Prod.snd).getD []

def Exhausted.message (e : Exhausted) : String :=
  s!"no tokens remain (consumed {e.consumed} of {e.length} bytes)"

/-- The first token of `text`, with what follows it: nothing, or a delimiter and more. -/
def split? (delimiters text : List Char) : Option (List Char × List Char) :=
  match text.dropWhile delimiters.contains with
  | [] => none
  | c :: rest =>
      some (c :: rest.takeWhile (!delimiters.contains ·), rest.dropWhile (!delimiters.contains ·))

/-- The bytes up to the end of the first token of `text`, and of one delimiter behind it. -/
def taken (delimiters text token : List Char) : List Char → Nat
  | [] => byteLength text
  | d :: _ => byteLength (text.takeWhile delimiters.contains) + byteLength token + d.utf8Size

def nextWith (tokens : Tokens) (delimiters : List Char) :
    Except Exhausted (List Char × Tokens) :=
  match split? delimiters tokens.rest with
  | none => .error { consumed := tokens.position, length := byteLength tokens.source }
  | some (token, after) =>
      .ok (token, {
        tokens with
        position := tokens.position + taken delimiters tokens.rest token after
        lastDelimiter := after.head? })

def next (tokens : Tokens) : Except Exhausted (List Char × Tokens) :=
  tokens.nextWith tokens.delimiters

def hasMore (tokens : Tokens) : Bool :=
  !tokens.rest.all tokens.delimiters.contains

theorem length_lt_of_split? {delimiters text token after : List Char}
    (h : split? delimiters text = some (token, after)) : after.length < text.length := by
  have hle := (List.dropWhile_sublist (l := text) delimiters.contains).length_le
  unfold split? at h
  split at h
  · exact nomatch h
  · rename_i c rest hstart
    simp only [Option.some.injEq, Prod.mk.injEq] at h
    obtain ⟨-, rfl⟩ := h
    have := (List.dropWhile_sublist (l := rest) (!delimiters.contains ·)).length_le
    simp only [hstart, List.length_cons] at hle
    omega

def countIn (delimiters text : List Char) : Nat :=
  match h : split? delimiters text with
  | none => 0
  | some (_, after) => countIn delimiters after + 1
termination_by text.length
decreasing_by exact length_lt_of_split? h

def count (tokens : Tokens) : Nat :=
  countIn tokens.delimiters tokens.rest

end Tokens

end Stencil.Text
