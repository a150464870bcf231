import Stencil.Template.Tree

/-! Paths through the trees of templates: how often they go into an operand, an item, an argument, a
value to be set, a block or a nested map, and how many parts they pass. -/

namespace Stencil.Template

/-- A part of the tree of a template, of whatever kind. -/
inductive TreePart where
  | node (node : Node)
  | branch (branch : Branch)
  | reference (reference : Reference)
  | accessor (accessor : Accessor)
  | expr (expr : Expr)
  | entry (entry : MapEntry)
  | value (value : MapValue)

def MapValue.isMap : MapValue → Bool
  | .map _ => true
  | _ => false

namespace TreePart

/-- The parts right below a part. The mark tells whether the step to them counts as nesting. -/
inductive Child : TreePart → Bool → TreePart → Prop where
  | setValue (target : String) (value : Expr) :
      Child (.node (.set target value)) true (.expr value)
  | nodeReference (r : Reference) : Child (.node (.reference r)) false (.reference r)
  | block {branches : List Branch} {b : Branch} (otherwise : Option (List Node))
      (h : b ∈ branches) : Child (.node (.conditional branches otherwise)) true (.branch b)
  | otherwise (branches : List Branch) {body : List Node} {node : Node} (h : node ∈ body) :
      Child (.node (.conditional branches (some body))) true (.node node)
  | condition (test : Expr) (body : List Node) : Child (.branch (.mk test body)) false (.expr test)
  | body (test : Expr) {body : List Node} {node : Node} (h : node ∈ body) :
      Child (.branch (.mk test body)) false (.node node)
  | accessor (quiet : Bool) (root : String) {path : List Accessor} {a : Accessor}
      (literal : String) (h : a ∈ path) :
      Child (.reference (.mk quiet root path literal)) false (.accessor a)
  | argument (name : String) {arguments : List Expr} {e : Expr} (h : e ∈ arguments) :
      Child (.accessor (.method name arguments)) true (.expr e)
  | exprReference (r : Reference) : Child (.expr (.reference r)) false (.reference r)
  | interpolated {nodes : List Node} {node : Node} (h : node ∈ nodes) :
      Child (.expr (.interpolated nodes)) false (.node node)
  | mapEntry {entries : List MapEntry} {entry : MapEntry} (h : entry ∈ entries) :
      Child (.expr (.map entries)) false (.entry entry)
  | item {items : List Expr} {e : Expr} (h : e ∈ items) : Child (.expr (.list items)) true (.expr e)
  | arithmeticLeft (op : ArithmeticOperator) (left right : Expr) :
      Child (.expr (.arithmetic op left right)) false (.expr left)
  | arithmeticRight (op : ArithmeticOperator) (left right : Expr) :
      Child (.expr (.arithmetic op left right)) false (.expr right)
  | comparisonLeft (op : ComparisonOperator) (left right : Expr) :
      Child (.expr (.comparison op left right)) false (.expr left)
  | comparisonRight (op : ComparisonOperator) (left right : Expr) :
      Child (.expr (.comparison op left right)) false (.expr right)
  | logicalLeft (op : LogicalOperator) (left right : Expr) :
      Child (.expr (.logical op left right)) false (.expr left)
  | logicalRight (op : LogicalOperator) (left right : Expr) :
      Child (.expr (.logical op left right)) false (.expr right)
  | notOperand (operand : Expr) : Child (.expr (.not operand)) true (.expr operand)
  | negateOperand (operand : Expr) : Child (.expr (.negate operand)) true (.expr operand)
  | entryValue (key : String) (value : MapValue) :
      Child (.entry (.mk key value)) value.isMap (.value value)
  | textNode {nodes : List Node} {node : Node} (h : node ∈ nodes) :
      Child (.value (.text nodes)) false (.node node)
  | valueReference (r : Reference) (quote : Option Char) :
      Child (.value (.reference r quote)) false (.reference r)
  | nestedEntry {entries : List MapEntry} {entry : MapEntry} (h : entry ∈ entries) :
      Child (.value (.map entries)) false (.entry entry)

/-- A path downwards from a part: the number of its steps that count as nesting, and the number of
parts on it. -/
inductive Path : TreePart → Nat → Nat → Prop where
  | here (part : TreePart) : Path part 0 1
  | down {part child : TreePart} {counted : Bool} {steps parts : Nat}
      (hchild : Child part counted child) (hpath : Path child steps parts) :
      Path part (steps + counted.toNat) (parts + 1)

/-- Every path downwards from the part takes fewer counted steps than `levels` and passes at most
`size` parts. -/
def Fits (levels size : Nat) (part : TreePart) : Prop :=
  ∀ steps parts, Path part steps parts → steps < levels ∧ parts ≤ size

namespace Fits

variable {levels size : Nat}

theorem mono {part : TreePart} (h : Fits levels size part) {levels' size' : Nat}
    (hlevels : levels ≤ levels') (hsize : size ≤ size') : Fits levels' size' part := by
  intro steps parts hpath
  obtain ⟨hsteps, hparts⟩ := h steps parts hpath
  omega

theorem larger {part : TreePart} (h : Fits levels size part) {size' : Nat} (hsize : size ≤ size') :
    Fits levels size' part :=
  h.mono (Nat.le_refl _) hsize

/-- A part fits as soon as its children do. A child behind a counted step has a level less. -/
theorem of_children {part : TreePart}
    (h : ∀ counted child, Child part counted child →
      Fits (bif counted then levels else levels + 1) size child) :
    Fits (levels + 1) (size + 1) part := by
  intro steps parts hpath
  cases hpath with
  | here => omega
  | @down _ child counted steps parts hchild hrest =>
      obtain ⟨hsteps, hparts⟩ := h counted child hchild steps parts hrest
      cases counted with
      | true =>
          simp only [cond_true] at hsteps
          simp only [Bool.toNat_true]
          omega
      | false =>
          simp only [cond_false] at hsteps
          simp only [Bool.toNat_false]
          omega

theorem text (content : String) : Fits (levels + 1) (size + 1) (.node (.text content)) :=
  of_children fun _ _ hchild => nomatch hchild

theorem nodeReference {r : Reference} (h : Fits (levels + 1) size (.reference r)) :
    Fits (levels + 1) (size + 1) (.node (.reference r)) := by
  refine of_children fun _ _ hchild => ?_
  cases hchild
  exact h

theorem set {target : String} {value : Expr} (h : Fits levels size (.expr value)) :
    Fits (levels + 1) (size + 1) (.node (.set target value)) := by
  refine of_children fun _ _ hchild => ?_
  cases hchild
  exact h

theorem conditional {branches : List Branch} {otherwise : Option (List Node)}
    (hbranches : ∀ b ∈ branches, Fits levels size (.branch b))
    (hotherwise : ∀ body ∈ otherwise, ∀ node ∈ body, Fits levels size (.node node)) :
    Fits (levels + 1) (size + 1) (.node (.conditional branches otherwise)) := by
  refine of_children fun _ _ hchild => ?_
  cases hchild with
  | block _ hb => exact hbranches _ hb
  | otherwise _ hnode => exact hotherwise _ rfl _ hnode

theorem branch {test : Expr} {body : List Node} (htest : Fits (levels + 1) size (.expr test))
    (hbody : ∀ node ∈ body, Fits (levels + 1) size (.node node)) :
    Fits (levels + 1) (size + 1) (.branch (.mk test body)) := by
  refine of_children fun _ _ hchild => ?_
  cases hchild with
  | condition => exact htest
  | body _ hnode => exact hbody _ hnode

theorem reference {quiet : Bool} {root : String} {path : List Accessor} {literal : String}
    (h : ∀ a ∈ path, Fits (levels + 1) size (.accessor a)) :
    Fits (levels + 1) (size + 1) (.reference (.mk quiet root path literal)) := by
  refine of_children fun _ _ hchild => ?_
  cases hchild with
  | accessor _ _ _ ha => exact h _ ha

theorem property (name : String) : Fits (levels + 1) (size + 1) (.accessor (.property name)) :=
  of_children fun _ _ hchild => nomatch hchild

theorem method {name : String} {arguments : List Expr}
    (h : ∀ e ∈ arguments, Fits levels size (.expr e)) :
    Fits (levels + 1) (size + 1) (.accessor (.method name arguments)) := by
  refine of_children fun _ _ hchild => ?_
  cases hchild with
  | argument _ he => exact h _ he

theorem literal (value : Literal) : Fits (levels + 1) (size + 1) (.expr (.literal value)) :=
  of_children fun _ _ hchild => nomatch hchild

theorem exprReference {r : Reference} (h : Fits (levels + 1) size (.reference r)) :
    Fits (levels + 1) (size + 1) (.expr (.reference r)) := by
  refine of_children fun _ _ hchild => ?_
  cases hchild
  exact h

theorem interpolated {nodes : List Node} (h : ∀ node ∈ nodes, Fits (levels + 1) size (.node node)) :
    Fits (levels + 1) (size + 1) (.expr (.interpolated nodes)) := by
  refine of_children fun _ _ hchild => ?_
  cases hchild with
  | interpolated hnode => exact h _ hnode

theorem map {entries : List MapEntry}
    (h : ∀ entry ∈ entries, Fits (levels + 1) size (.entry entry)) :
    Fits (levels + 1) (size + 1) (.expr (.map entries)) := by
  refine of_children fun _ _ hchild => ?_
  cases hchild with
  | mapEntry hentry => exact h _ hentry

theorem list {items : List Expr} (h : ∀ e ∈ items, Fits levels size (.expr e)) :
    Fits (levels + 1) (size + 1) (.expr (.list items)) := by
  refine of_children fun _ _ hchild => ?_
  cases hchild with
  | item he => exact h _ he

theorem not {operand : Expr} (h : Fits levels size (.expr operand)) :
    Fits (levels + 1) (size + 1) (.expr (.not operand)) := by
  refine of_children fun _ _ hchild => ?_
  cases hchild
  exact h

theorem negate {operand : Expr} (h : Fits levels size (.expr operand)) :
    Fits (levels + 1) (size + 1) (.expr (.negate operand)) := by
  refine of_children fun _ _ hchild => ?_
  cases hchild
  exact h

section

variable {left right : Expr} (hleft : Fits (levels + 1) size (.expr left))
  (hright : Fits (levels + 1) size (.expr right))
include hleft hright

theorem arithmetic (op : ArithmeticOperator) :
    Fits (levels + 1) (size + 1) (.expr (.arithmetic op left right)) := by
  refine of_children fun _ _ hchild => ?_
  cases hchild with
  | arithmeticLeft => exact hleft
  | arithmeticRight => exact hright

theorem comparison (op : ComparisonOperator) :
    Fits (levels + 1) (size + 1) (.expr (.comparison op left right)) := by
  refine of_children fun _ _ hchild => ?_
  cases hchild with
  | comparisonLeft => exact hleft
  | comparisonRight => exact hright

theorem logical (op : LogicalOperator) :
    Fits (levels + 1) (size + 1) (.expr (.logical op left right)) := by
  refine of_children fun _ _ hchild => ?_
  cases hchild with
  | logicalLeft => exact hleft
  | logicalRight => exact hright

end

theorem entry {key : String} {value : MapValue}
    (h : Fits (bif value.isMap then levels else levels + 1) size (.value value)) :
    Fits (levels + 1) (size + 1) (.entry (.mk key value)) := by
  refine of_children fun _ _ hchild => ?_
  cases hchild
  exact h

theorem valueText {nodes : List Node} (h : ∀ node ∈ nodes, Fits (levels + 1) size (.node node)) :
    Fits (levels + 1) (size + 1) (.value (.text nodes)) := by
  refine of_children fun _ _ hchild => ?_
  cases hchild with
  | textNode hnode => exact h _ hnode

theorem valueNumber (n : Number) : Fits (levels + 1) (size + 1) (.value (.number n)) :=
  of_children fun _ _ hchild => nomatch hchild

theorem valueBoolean (b : Bool) : Fits (levels + 1) (size + 1) (.value (.boolean b)) :=
  of_children fun _ _ hchild => nomatch hchild

theorem valueReference {r : Reference} {quote : Option Char}
    (h : Fits (levels + 1) size (.reference r)) :
    Fits (levels + 1) (size + 1) (.value (.reference r quote)) := by
  refine of_children fun _ _ hchild => ?_
  cases hchild
  exact h

theorem nestedMap {entries : List MapEntry}
    (h : ∀ entry ∈ entries, Fits (levels + 1) size (.entry entry)) :
    Fits (levels + 1) (size + 1) (.value (.map entries)) := by
  refine of_children fun _ _ hchild => ?_
  cases hchild with
  | nestedEntry hentry => exact h _ hentry

end Fits

end TreePart

end Stencil.Template

namespace Stencil

def Template.HasPath (t : Template) (steps parts : Nat) : Prop :=
  ∃ node ∈ t.nodes, Template.TreePart.Path (.node node) steps parts

end Stencil
