import Stencil.Json.Document
import Stencil.Render.Context

namespace Stencil

namespace Json

def maxNesting : Nat := 127

def name? (units : List Nat) : Option String :=
  (Text.Utf16.decode? units).map String.ofList

mutual

/-- The value of a document that nests at most `levels` deep. An object is a map in the order of its
keys, where the last of several members with one name counts. -/
def Document.value? (levels : Nat) : Document → Option Value
  | .null => some .null
  | .boolean b => some (.boolean b)
  | .number n => n.number?.map .number
  | .text units => (name? units).map .text
  | .array items =>
      match levels with
      | 0 => none
      | levels + 1 => (itemValues? levels items).map .list
  | .object members =>
      match levels with
      | 0 => none
      | levels + 1 => (memberValues? levels [] members).map .map

def itemValues? (levels : Nat) : List Document → Option (List Value)
  | [] => some []
  | item :: rest => do
      let value ← item.value? levels
      return value :: (← itemValues? levels rest)

def memberValues? (levels : Nat) (done : Entries Value) :
    List (List Nat × Document) → Option (Entries Value)
  | [] => some done
  | (units, member) :: rest => do
      let name ← name? units
      let value ← member.value? levels
      memberValues? levels (done.putOrdered name value) rest

end

end Json

def Value.ofJson? (source : String) : Option Value :=
  (Json.Document.ofText? source).bind (Json.Document.value? Json.maxNesting)

def Context.ofValue? : Value → Option Context
  | .map entries => some (.ofList entries)
  | _ => none

end Stencil
