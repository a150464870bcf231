import Stencil.Value.Basic

namespace Stencil

inductive Parameter where
  /-- Accepts every value, and none exactly. -/
  | any
  | exactly (tag : TypeTag)
  deriving DecidableEq, Repr

def Parameter.name : Parameter → String
  | .any => "Any"
  | .exactly tag => tag.name

inductive Coercion where
  | identity
  | widen (target : TypeTag)
  | stringify
  deriving DecidableEq, Repr

inductive Fit where
  | exact
  | compatible
  deriving DecidableEq, Repr

def Fit.join : Fit → Fit → Fit
  | .exact, fit => fit
  | .compatible, _ => .compatible

namespace TypeTag

def numeric? : TypeTag → Option (NumberClass × Nat)
  | .integer kind => some (kind.numberClass, kind.width.bits)
  | .single => some (.single, 32)
  | .double => some (.double, 64)
  | _ => none

/-- Integers widen to both binary formats, unsigned ones to wider unsigned and signed kinds,
signed ones to wider signed kinds, and everything to doubles. -/
def widensTo (source target : TypeTag) : Bool :=
  match source.numeric?, target.numeric? with
  | some (sourceClass, sourceBits), some (targetClass, targetBits) =>
      match targetClass with
      | .double => true
      | .single => sourceClass == .signed || sourceClass == .unsigned
      | .signed =>
          (sourceClass == .signed || sourceClass == .unsigned) && sourceBits < targetBits
      | .unsigned => sourceClass == .unsigned && sourceBits < targetBits
  | _, _ => false

def acceptsNull : TypeTag → Bool
  | .text | .list | .map | .object _ => true
  | _ => false

end TypeTag

/-- The number in a wider type. No type is wider than one of eight bits. -/
def Number.widen? (n : Number) : TypeTag → Option Number
  | .double => some (.double n.toDouble)
  | .single => some (.single n.toSingle)
  | .integer kind => if kind.width = .w8 then none else n.integer?.bind kind.number?
  | _ => none

namespace Coercion

/-- A coercion leaves alone what it does not apply to. -/
def apply : Coercion → Value → Value
  | .widen target, .number n => .number ((n.widen? target).getD n)
  | .stringify, .char c => .text c.toString
  | _, value => value

end Coercion

namespace Parameter

def fit? (parameter : Parameter) (argument : TypeTag) : Option (Fit × Coercion) :=
  match parameter with
  | .any => some (.compatible, .identity)
  | .exactly target =>
      if target = argument then some (.exact, .identity)
      else if argument.widensTo target then some (.compatible, .widen target)
      else if argument = .char ∧ target = .text then some (.compatible, .stringify)
      else if argument = .null ∧ target.acceptsNull then some (.compatible, .identity)
      else none

def fitAll? : List Parameter → List TypeTag → Option (Fit × List Coercion)
  | parameter :: parameters, argument :: arguments => do
      let (fit, coercion) ← parameter.fit? argument
      let (others, coercions) ← fitAll? parameters arguments
      return (fit.join others, coercion :: coercions)
  | _, _ => some (.exact, [])

end Parameter

end Stencil
