import Mathlib.Logic.Relation
import Stencil.Proofs.TreePaths

namespace Stencil.Template

/-- The part stands in the whole: it is the whole itself or lies anywhere below it. -/
def TreePart.Contains (whole part : TreePart) : Prop :=
  Relation.ReflTransGen (fun parent child => ∃ counted, Child parent counted child) whole part

structure Footprint where
  reads : String → Prop
  sets : String → Prop

namespace Footprint

/-- The names at the roots of all references in the part are read, and the targets of all `#set`
directives in it are set. -/
structure Covers (names : Footprint) (part : TreePart) : Prop where
  reads {r : Reference} : part.Contains (.reference r) → names.reads r.root
  sets {target : String} {value : Expr} :
    part.Contains (.node (.set target value)) → names.sets target

theorem Covers.child {names : Footprint} {part child : TreePart} {counted : Bool}
    (h : names.Covers part) (hchild : TreePart.Child part counted child) : names.Covers child where
  reads hbelow := h.reads (.head ⟨counted, hchild⟩ hbelow)
  sets hbelow := h.sets (.head ⟨counted, hchild⟩ hbelow)

theorem Covers.of_children {names : Footprint} {part : TreePart}
    (hreads : ∀ r, part = .reference r → names.reads r.root)
    (hsets : ∀ target value, part = .node (.set target value) → names.sets target)
    (h : ∀ counted child, TreePart.Child part counted child → names.Covers child) :
    names.Covers part where
  reads hcontains := by
    obtain heq | ⟨child, ⟨counted, hchild⟩, hbelow⟩ := hcontains.cases_head
    · exact hreads _ heq
    · exact (h counted child hchild).reads hbelow
  sets hcontains := by
    obtain heq | ⟨child, ⟨counted, hchild⟩, hbelow⟩ := hcontains.cases_head
    · exact hsets _ _ heq
    · exact (h counted child hchild).sets hbelow

def every : Footprint where
  reads _ := True
  sets _ := True

theorem every_covers (part : TreePart) : every.Covers part :=
  ⟨fun _ => trivial, fun _ => trivial⟩

end Footprint

/-- The name stands at the root of a reference, be it in an argument, a text or a map literal. -/
def ReadsName (t : Template) (name : String) : Prop :=
  ∃ node ∈ t.nodes, ∃ r, (TreePart.node node).Contains (.reference r) ∧ r.root = name

/-- The name is the target of a `#set`, be it in a text or a map literal. -/
def SetsName (t : Template) (name : String) : Prop :=
  ∃ node ∈ t.nodes, ∃ value, (TreePart.node node).Contains (.node (.set name value))

def footprint (t : Template) : Footprint where
  reads := t.ReadsName
  sets := t.SetsName

theorem footprint_covers (t : Template) :
    ∀ node ∈ t.nodes, t.footprint.Covers (.node node) :=
  fun node hnode => {
    reads := fun hbelow => ⟨node, hnode, _, hbelow, rfl⟩
    sets := fun hbelow => ⟨node, hnode, _, hbelow⟩ }

end Stencil.Template
