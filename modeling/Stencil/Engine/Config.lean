import Stencil.Engine.Error
import Stencil.Json.Value

namespace Stencil

structure Config where
  /-- How many resolutions are remembered. -/
  capacity : Nat := 256
  capacity_pos : 0 < capacity := by decide
  /-- Whether a reference that yields nothing is an error. -/
  strict : Bool := false

namespace Config

def usual : Config := {}

def ofCapacity (capacity : Nat) (strict : Bool) : Except SetupError Config :=
  if h : 0 < capacity then .ok { capacity, capacity_pos := h, strict }
  else .error .zeroCapacity

structure Fields where
  capacity : Option Nat
  strict : Option Bool
  deriving DecidableEq, Repr

end Config

namespace Json

def maxSetting : Nat := UInt64.size - 1

def Document.natural? : Document → Option Nat
  | .number n => n.integer?.bind fun v => if 0 ≤ v ∧ v ≤ maxSetting then some v.toNat else none
  | _ => none

def Document.boolean? : Document → Option Bool
  | .boolean b => some b
  | _ => none

end Json

namespace Config.Fields

open Json

def unset : Fields :=
  { capacity := none, strict := none }

/-- Adds a member. A setting may be given once, and other members do not matter. -/
def add? (fields : Fields) (member : List Nat × Document) : Option Fields := do
  let (units, value) := member
  match ← name? units with
  | "resolution_cache_capacity" =>
      guard fields.capacity.isNone
      return { fields with capacity := ← value.natural? }
  | "strict_references" =>
      guard fields.strict.isNone
      return { fields with strict := ← value.boolean? }
  | _ => return fields

def ofDocument? : Document → Option Fields
  | .object members => members.foldlM add? unset
  | .array [] => some unset
  | .array [capacity] => do return { unset with capacity := ← capacity.natural? }
  | .array [capacity, strict] => do
      return { capacity := ← capacity.natural?, strict := ← strict.boolean? }
  | _ => none

end Config.Fields

/-- The settings of a JSON text; `malformed` is the complaint about a text that gives none. -/
def Config.ofJson (malformed : SetupError) (source : String) : Except SetupError Config :=
  match (Json.Document.ofText? source).bind Fields.ofDocument? with
  | some fields =>
      ofCapacity (fields.capacity.getD usual.capacity) (fields.strict.getD usual.strict)
  | none => .error malformed

end Stencil
