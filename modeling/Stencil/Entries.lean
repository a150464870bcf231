namespace Stencil

abbrev Entries (α : Type) := List (String × α)

namespace Entries

variable {α : Type}

def find? (name : String) (entries : Entries α) : Option α :=
  entries.lookup name

/-- Binds `name`, in its place if it has one and otherwise at the end. -/
def put (name : String) (value : α) : Entries α → Entries α
  | [] => [(name, value)]
  | (other, old) :: rest =>
      if other == name then (name, value) :: rest else (other, old) :: put name value rest

/-- Binds `name` among entries that stand in the order of their names. -/
def putOrdered (name : String) (value : α) : Entries α → Entries α
  | [] => [(name, value)]
  | (other, old) :: rest =>
      if other == name then (name, value) :: rest
      else if name < other then (name, value) :: (other, old) :: rest
      else (other, old) :: putOrdered name value rest

def remove (name : String) (entries : Entries α) : Entries α :=
  entries.filter (·.1 != name)

def ordered (entries : Entries α) : Entries α :=
  entries.mergeSort fun a b => a.1 ≤ b.1

end Entries

end Stencil
