import Stencil.Member.Registry
import Stencil.Recency

namespace Stencil

/-- What a selection depends on. The name of the method is in small letters, unless the type
spells that name in more than one way: then the spelling of the call matters. -/
structure CallShape where
  typeName : String
  method : String
  arguments : List TypeTag
  deriving DecidableEq, Hashable

structure Resolution where
  method : MethodId
  coercions : List Coercion
  deriving DecidableEq, Repr

abbrev ResolutionCache := RecencyMap CallShape Resolution

inductive MethodError where
  | notFound (typeName method signature : String)
  | invocation (typeName method : String) (cause : Failure)
  deriving DecidableEq, Repr

def MethodError.message : MethodError → String
  | .notFound typeName method signature => s!"no method {typeName}.{method}{signature}"
  | .invocation typeName method cause =>
      s!"invocation of {typeName}.{method} failed: {cause.message}"

def MethodError.isNotFound : MethodError → Bool
  | .notFound .. => true
  | .invocation .. => false

def argumentSignature (arguments : List TypeTag) : String :=
  "(" ++ ", ".intercalate (arguments.map TypeTag.name) ++ ")"

namespace Registry

structure Hit where
  id : MethodId
  fit : Fit
  coercions : List Coercion

def hits (candidates : List (MethodId × Method)) (arguments : List TypeTag) : List Hit :=
  candidates.filterMap fun (id, method) =>
    (Parameter.fitAll? method.parameters arguments).map fun (fit, coercions) =>
      { id, fit, coercions }

/-- The first hit that fits exactly, or else the first hit. -/
def best? (hits : List Hit) : Option Resolution :=
  (hits.find? (·.fit == .exact) <|> hits.head?).map fun hit =>
    { method := hit.id, coercions := hit.coercions }

/-- The method that a call selects. Methods spelled as in the call come before those that differ
in letter case, and among either exact fits come first. -/
def select? (r : Registry) (typeName name : String) (arguments : List TypeTag) :
    Option Resolution :=
  let candidates := (r.candidates typeName).filter fun (_, m) => m.arity == arguments.length
  let folded := Text.lower name
  let spelled := candidates.filter fun (_, m) => m.name == name
  let respelled := candidates.filter fun (_, m) =>
    m.name != name && Text.lower m.name == folded
  best? (hits spelled arguments) <|> best? (hits respelled arguments)

def callShape (r : Registry) (receiver : Value) (name : String) (arguments : List Value) :
    CallShape :=
  let typeName := receiver.typeName
  let folded := Text.lower name
  { typeName
    method := if r.hasCaseVariants typeName folded then name else folded
    arguments := arguments.map Value.tag }

/-- The remembered resolution of the call's shape, or a new selection, which is remembered. -/
def resolve (r : Registry) (cache : ResolutionCache) (receiver : Value) (name : String)
    (arguments : List Value) : Except MethodError Resolution × ResolutionCache :=
  let shape := r.callShape receiver name arguments
  match cache.get? shape with
  | (some resolution, cache) => (.ok resolution, cache)
  | (none, cache) =>
      match r.select? shape.typeName name shape.arguments with
      | some resolution => (.ok resolution, (cache.put shape resolution).2)
      | none =>
          (.error (.notFound shape.typeName name (argumentSignature shape.arguments)), cache)

def invoke (r : Registry) (resolution : Resolution) (receiver : Value) (arguments : List Value) :
    Except MethodError Value :=
  match r.method? resolution.method with
  | none => .error (.notFound receiver.typeName resolution.method.text "")
  | some method =>
      let coerced := arguments.zipWith (fun value coercion => coercion.apply value)
        resolution.coercions
      (method.action receiver coerced).mapError (.invocation method.typeName method.name)

def call (r : Registry) (cache : ResolutionCache) (receiver : Value) (name : String)
    (arguments : List Value) : Except MethodError Value × ResolutionCache :=
  match r.resolve cache receiver name arguments with
  | (.ok resolution, cache) => (r.invoke resolution receiver arguments, cache)
  | (.error e, cache) => (.error e, cache)

end Registry

end Stencil
