import Stencil.Template.Fault
import Stencil.Text.Blank

/-! Readers of template text. A reader recognises something at the front of a text and leaves the
rest, or misses, so that another reader may try, or halts, which is final. -/

namespace Stencil.Template

inductive Reply (α : Type) where
  | done (value : α) (rest : List Char)
  | miss (fault : Fault)
  | halt (fault : Fault)

def Reader (α : Type) : Type :=
  List Char → Reply α

namespace Reader

variable {α β : Type}

protected def pure (value : α) : Reader α :=
  fun text => .done value text

protected def bind (p : Reader α) (f : α → Reader β) : Reader β :=
  fun text =>
    match p text with
    | .done value rest => f value rest
    | .miss fault => .miss fault
    | .halt fault => .halt fault

instance : Monad Reader where
  pure := Reader.pure
  bind := Reader.bind

def missing (complaint : Complaint) : Reader α :=
  fun text => .miss { complaint, location := { piece := text, behind := 0 } }

def halting (complaint : Complaint) : Reader α :=
  fun text => .halt { complaint, location := { piece := text, behind := 0 } }

protected def orElse (p : Reader α) (q : Unit → Reader α) : Reader α :=
  fun text =>
    match p text with
    | .miss _ => q () text
    | reply => reply

instance : OrElse (Reader α) :=
  ⟨Reader.orElse⟩

def cut (p : Reader α) : Reader α :=
  fun text =>
    match p text with
    | .miss fault => .halt fault
    | reply => reply

def under (complaint : Complaint) (p : Reader α) : Reader α :=
  fun text =>
    match p text with
    | .done value rest => .done value rest
    | .miss fault => .miss (fault.under complaint)
    | .halt fault => .halt (fault.under complaint)

def option (p : Reader α) : Reader (Option α) :=
  fun text =>
    match p text with
    | .done value rest => .done (some value) rest
    | .miss _ => .done none text
    | .halt fault => .halt fault

/-- At most as many rounds of `p` as `budget` has characters. -/
def manyWithin (p : Reader α) (budget : List Char) : Reader (List α) :=
  fun text =>
    match budget with
    | [] => .done [] text
    | _ :: budget =>
        match p text with
        | .done value rest =>
            match manyWithin p budget rest with
            | .done values rest => .done (value :: values) rest
            | reply => reply
        | .miss _ => .done [] text
        | .halt fault => .halt fault

/-- `p` until it misses. Every round has to read something, so there are no more rounds than
characters. -/
def many (p : Reader α) : Reader (List α) :=
  fun text => manyWithin p text text

def separated (separator : Reader β) (p : Reader α) : Reader (List α) :=
  (do
    let first ← p
    let others ← many (do let _ ← separator; p)
    return first :: others) <|> pure []

def wholly (p : Reader α) : Reader α :=
  fun text =>
    match p text with
    | .done value [] => .done value []
    | .done _ rest => missing .expectedEndOfText rest
    | reply => reply

def spanned (p : Reader α) : Reader (List Char × α) :=
  fun text =>
    match p text with
    | .done value rest => .done (text.take (text.length - rest.length), value) rest
    | .miss fault => .miss fault
    | .halt fault => .halt fault

def char (c : Char) : Reader Unit :=
  fun text =>
    match text with
    | d :: rest => if d == c then .done () rest else missing (.expected c) text
    | [] => missing (.expected c) text

def word (chars : List Char) : Reader Unit :=
  fun text =>
    if chars.isPrefixOf text then .done () (text.drop chars.length)
    else missing .expectedWord text

def skipWhile (p : Char → Bool) : Reader Unit :=
  fun text => .done () (text.dropWhile p)

def layout : Reader Unit :=
  skipWhile Text.isLayout

def spaces : Reader Unit :=
  skipWhile fun c => c == ' ' || c == '\t'

def lexeme (p : Reader α) : Reader α := do
  layout
  let value ← p
  layout
  return value

/-- Takes nothing, where the next character is not in `p`. -/
def notBefore (p : Char → Bool) : Reader Unit :=
  fun text =>
    match text with
    | c :: _ => if p c then missing .expectedWord text else .done () text
    | [] => .done () text

end Reader

end Stencil.Template
