import Stencil.Value.Basic

namespace Stencil.Value

/-- The count of the entries and each entry as `key=<text>`, in the order of the keys. -/
def dumpOf (shownEntries : Entries String) : String :=
  if shownEntries.isEmpty then "0"
  else
    let entries := shownEntries.ordered.map fun (key, shown) => key ++ "=<" ++ shown ++ ">"
    shownEntries.length.repr ++ ":" ++ " ".intercalate entries

mutual

def dumped : Value → String
  | .map entries => dumpOf (dumpedEntries entries)
  | other => other.canonical

def dumpedEntries : List (String × Value) → Entries String
  | [] => []
  | (key, value) :: rest => (key, dumped value) :: dumpedEntries rest

end

def dump (entries : Entries Value) : String :=
  dumpOf (dumpedEntries entries)

end Stencil.Value
