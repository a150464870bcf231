import Stencil.Value.Basic

namespace Stencil

structure Context where
  bindings : Entries Value

namespace Context

def empty : Context :=
  { bindings := [] }

def get? (c : Context) (name : String) : Option Value :=
  c.bindings.find? name

def put (c : Context) (name : String) (value : Value) : Context :=
  { bindings := c.bindings.putOrdered name value }

def remove (c : Context) (name : String) : Context :=
  { bindings := c.bindings.remove name }

def size (c : Context) : Nat :=
  c.bindings.length

def isEmpty (c : Context) : Bool :=
  c.bindings.isEmpty

/-- The bindings of a list; of two for one name the later one counts. -/
def ofList (entries : List (String × Value)) : Context :=
  entries.foldl (fun c (name, value) => c.put name value) empty

end Context

end Stencil
