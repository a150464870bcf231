import Stencil.Member.Signature
import Stencil.Text.Case

namespace Stencil

inductive Failure where
  | unexpected (wanted got : String)
  | outOfRange (index : Int) (greatest : Nat)
  | noItem (index : Nat)
  | nullOptions
  | undumpable (typeName : String)
  | foreignReceiver (expected got : String)
  | raised (message : String)
  deriving DecidableEq, Repr

def Failure.message : Failure → String
  | .unexpected wanted got => s!"expected {wanted}, got {got}"
  | .outOfRange index greatest => s!"index {index} is out of range 0..={greatest}"
  | .noItem index => s!"index {index} is out of range"
  | .nullOptions => "options must not be null"
  | .undumpable typeName => s!"cannot dump a {typeName}"
  | .foreignReceiver expected got => s!"receiver is not a {expected} host object (got {got})"
  | .raised message => message

/-- What a member does, the host's own members included, is a function of the receiver and of the
arguments. It has no state, so it comes to the same whenever it is called with the same values. -/
abbrev Action := Value → List Value → Except Failure Value

structure Method where
  typeName : String
  name : String
  parameters : List Parameter
  action : Action

namespace Method

def arity (m : Method) : Nat :=
  m.parameters.length

def description (m : Method) : String :=
  m.typeName ++ "." ++ m.name ++ "(" ++ ", ".intercalate (m.parameters.map Parameter.name) ++ ")"

end Method

structure MethodId where
  index : Nat
  deriving DecidableEq, Hashable, Repr

def MethodId.text (id : MethodId) : String :=
  s!"MethodId({id.index})"

/-- All declared methods, with the methods of each type and the names that a type spells in more
than one way. -/
structure Registry where
  methods : Array Method
  byType : Entries (List MethodId)
  /-- Type names with the small forms of names that differ in letter case only. -/
  respelled : List (String × String)

namespace Registry

def empty : Registry :=
  { methods := #[], byType := [], respelled := [] }

instance : Inhabited Registry :=
  ⟨empty⟩

def size (r : Registry) : Nat :=
  r.methods.size

def isEmpty (r : Registry) : Bool :=
  r.methods.isEmpty

def method? (r : Registry) (id : MethodId) : Option Method :=
  r.methods[id.index]?

def idsOf (r : Registry) (typeName : String) : List MethodId :=
  (r.byType.find? typeName).getD []

def candidates (r : Registry) (typeName : String) : List (MethodId × Method) :=
  (r.idsOf typeName).filterMap fun id => (r.method? id).map (id, ·)

/-- Whether the type declares names that differ from each other but share the small form. -/
def hasCaseVariants (r : Registry) (typeName folded : String) : Bool :=
  r.respelled.contains (typeName, folded)

def define (r : Registry) (method : Method) : MethodId × Registry :=
  let id : MethodId := { index := r.methods.size }
  let folded := Text.lower method.name
  let respells := (r.candidates method.typeName).any fun (_, other) =>
    other.name != method.name && Text.lower other.name == folded
  let entry := (method.typeName, folded)
  (id, {
    methods := r.methods.push method
    byType := r.byType.put method.typeName (r.idsOf method.typeName ++ [id])
    respelled := if respells then r.respelled.insert entry else r.respelled })

def defineAll (r : Registry) (methods : List Method) : Registry :=
  methods.foldl (fun r method => (r.define method).2) r

end Registry

/-- A method on host objects with the given payload; any other receiver is refused. -/
def Method.onPayload (payload typeName name : String) (parameters : List Parameter)
    (action : HostObject → List Value → Except Failure Value) : Method :=
  { typeName, name, parameters
    action := fun receiver arguments =>
      match receiver with
      | .object host =>
          if host.payload = payload then action host arguments
          else .error (.foreignReceiver typeName receiver.typeName)
      | _ => .error (.foreignReceiver typeName receiver.typeName) }

end Stencil
