import Stencil.Member.Registry
import Stencil.Text.Blank
import Stencil.Value.Dump

namespace Stencil

namespace Text

def hasPart (part : List Char) : List Char → Bool
  | [] => part.isEmpty
  | c :: rest => part.isPrefixOf (c :: rest) || hasPart part rest

end Text

namespace Builtin

def textOf : Value → Except Failure String
  | .text s => .ok s
  | other => .error (.unexpected "a string" other.typeName)

def entriesOf : Value → Except Failure (Entries Value)
  | .map entries => .ok entries
  | other => .error (.unexpected "a map" other.typeName)

def itemsOf : Value → Except Failure (List Value)
  | .list items => .ok items
  | other => .error (.unexpected "a list" other.typeName)

def indexOf (value : Value) (greatest : Nat) : Except Failure Nat :=
  match value with
  | .number (.integer _ v _) =>
      if 0 ≤ v ∧ v ≤ greatest then .ok v.toNat else .error (.outOfRange v greatest)
  | other => .error (.unexpected "an integer index" other.typeName)

theorem holds_count (n : Nat) : IntegerKind.int32.Holds (Int.bmod n (Nat.pow 2 32)) := by
  have hleast : -2147483648 ≤ Int.bmod n (Nat.pow 2 32) := Int.le_bmod (by decide)
  have hgreatest : Int.bmod n (Nat.pow 2 32) < 2147483648 := Int.bmod_lt (by decide)
  exact ⟨hleast, Int.le_sub_one_of_lt hgreatest⟩

/-- A number of parts, in 32 bits; after the greatest the numbers start over at the least. -/
def count (n : Nat) : Value :=
  .number (.integer .int32 (Int.bmod n (Nat.pow 2 32)) (holds_count n))

def argument (arguments : List Value) (i : Nat) : Value :=
  arguments.getD i .null

def onText (name : String) (parameters : List Parameter)
    (action : String → List Value → Except Failure Value) : Method :=
  { typeName := TypeTag.text.name, name, parameters
    action := fun receiver arguments => do action (← textOf receiver) arguments }

def onMap (name : String) (parameters : List Parameter)
    (action : Entries Value → List Value → Except Failure Value) : Method :=
  { typeName := TypeTag.map.name, name, parameters
    action := fun receiver arguments => do action (← entriesOf receiver) arguments }

def onList (name : String) (parameters : List Parameter)
    (action : List Value → List Value → Except Failure Value) : Method :=
  { typeName := TypeTag.list.name, name, parameters
    action := fun receiver arguments => do action (← itemsOf receiver) arguments }

def textParameter : Parameter :=
  .exactly .text

def indexParameter : Parameter :=
  .exactly (.integer .int32)

def onTexts (name : String) (test : List Char → List Char → Bool) : Method :=
  onText name [textParameter] fun s arguments => do
    return .boolean (test (← textOf (argument arguments 0)).toList s.toList)

def tailFrom (s : String) (start : Value) : Except Failure Value := do
  let chars := s.toList
  return .text (String.ofList (chars.drop (← indexOf start chars.length)))

def slice (s : String) (start length : Value) : Except Failure Value := do
  let chars := s.toList
  let start ← indexOf start chars.length
  let length ← indexOf length (chars.length - start)
  return .text (String.ofList ((chars.drop start).take length))

def textMethods : List Method := [
  onText "Length" [] fun s _ => return count s.length,
  onText "ToUpper" [] fun s _ => return .text (Text.upper s),
  onText "ToLower" [] fun s _ => return .text (Text.lower s),
  onText "Trim" [] fun s _ => return .text (String.ofList (Text.trim s.toList)),
  onTexts "Contains" Text.hasPart,
  onTexts "StartsWith" List.isPrefixOf,
  onTexts "EndsWith" List.isSuffixOf,
  onText "Substring" [indexParameter] fun s arguments => tailFrom s (argument arguments 0),
  onText "Substring" [indexParameter, indexParameter] fun s arguments =>
    slice s (argument arguments 0) (argument arguments 1)]

def mapMethods : List Method := [
  onMap "Count" [] fun entries _ => return count entries.length,
  onMap "ContainsKey" [textParameter] fun entries arguments => do
    return .boolean (entries.find? (← textOf (argument arguments 0))).isSome,
  onMap "Get" [textParameter] fun entries arguments => do
    return (entries.find? (← textOf (argument arguments 0))).getD .null,
  onMap "Keys" [] fun entries _ => return .list (entries.map (.text ·.1))]

/-- The item at an index. The greatest index of the empty list counts as zero. -/
def item (items : List Value) (index : Value) : Except Failure Value := do
  let i ← indexOf index (items.length - 1)
  match items[i]? with
  | some value => return value
  | none => throw (.noItem i)

def listMethods : List Method := [
  onList "Count" [] fun items _ => return count items.length,
  onList "Get" [.exactly (.integer .int32)] fun items arguments => item items (argument arguments 0)]

def dumpHelper : String := "DumpHelper"

def dumpMethod : Method :=
  .onPayload dumpHelper dumpHelper "Dump" [.exactly .map] fun _ arguments =>
    match argument arguments 0 with
    | .map entries => return .text (Value.dump entries)
    | .null => throw .nullOptions
    | other => throw (.undumpable other.typeName)

def methods : List Method :=
  textMethods ++ mapMethods ++ listMethods ++ [dumpMethod]

end Builtin

def Registry.withBuiltins : Registry :=
  Registry.empty.defineAll Builtin.methods

end Stencil
