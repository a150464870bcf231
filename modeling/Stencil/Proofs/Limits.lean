import Stencil.Proofs.Fitting
import Stencil.Template.Parse

/-! Templates read under other limits. A reader with tighter limits halts or reads what one with
wider limits reads, and the trees that it reads fit its limits. -/

namespace Stencil.Template

open Reader

/-- How deep the constructs of a template may nest, and how many operators of one level may stand in
a row. -/
structure Limits where
  nesting : Nat
  operators : Nat

def Limits.usual : Limits where
  nesting := maxNesting
  operators := maxOperators

def chainUpTo {ω : Type} (limit : Nat) (operand : Reader Expr) (operator : Reader ω)
    (build : ω → Expr → Expr → Expr) : Reader Expr := do
  let first ← operand
  fun start => Reader.bind
    (many do
      let op ← lexeme operator
      let right ← cut operand
      return (op, right))
    (fun steps =>
      if limit < steps.length then fun _ => halting .tooManyOperators start
      else pure (steps.foldl (fun left (op, right) => build op left right) first)) start

def disjunctionUpTo (limit : Nat) (inner : Inner) : Reader Expr :=
  let product := chainUpTo limit (unary inner) multiplicativeOperator .arithmetic
  let sum := chainUpTo limit product additiveOperator .arithmetic
  let comparison := chainUpTo limit sum comparisonOperator .comparison
  let conjunction := chainUpTo limit comparison andOperator .logical
  chainUpTo limit conjunction orOperator .logical

namespace Inner

def aroundUpTo (limit : Nat) (inner : Inner) : Inner where
  expression := disjunctionUpTo limit inner
  operand := unary inner
  block := conditional inner
  braced := bracedEntries inner

def withinUpTo (limit : Nat) : Nat → Inner
  | 0 => none
  | levels + 1 => aroundUpTo limit (withinUpTo limit levels)

theorem withinUpTo_maxOperators (levels : Nat) :
    withinUpTo maxOperators levels = within levels := by
  induction levels with
  | zero => rfl
  | succ levels ih =>
      rw [withinUpTo, ih]
      rfl

end Inner

namespace Limits

def inner (limits : Limits) : Inner :=
  .withinUpTo limits.operators limits.nesting

def parse (limits : Limits) (label source : String) : Except ParseError Template :=
  let text := source.toList
  match nodeSequence limits.inner text with
  | .done nodes [] => .ok { label, nodes }
  | .done _ rest =>
      .error (.ofLocation text { piece := rest, behind := 0 } (strayComplaint rest).text)
  | .miss fault | .halt fault => .error (fault.toError text)

theorem usual_parse (label source : String) :
    usual.parse label source = Template.parse label source := by
  have hinner : usual.inner = Inner.top := Inner.withinUpTo_maxOperators maxNesting
  simp only [parse, hinner]
  rfl

end Limits

open TreePart (Fits)

def FitsAbove {ω : Type} (build : ω → Expr → Expr → Expr) : Prop :=
  ∀ {levels size : Nat} {left right : Expr}, Fits (levels + 1) size (.expr left) →
    Fits (levels + 1) size (.expr right) → ∀ op,
      Fits (levels + 1) (size + 1) (.expr (build op left right))

section

variable {ω : Type} {build : ω → Expr → Expr → Expr} (hbuild : FitsAbove build)
  {levels size : Nat}
include hbuild

theorem fits_foldl {steps : List (ω × Expr)} {first : Expr}
    (hfirst : Fits (levels + 1) size (.expr first))
    (hsteps : ∀ step ∈ steps, Fits (levels + 1) size (.expr step.2)) :
    Fits (levels + 1) (size + steps.length)
      (.expr (steps.foldl (fun left (op, right) => build op left right) first)) := by
  induction steps generalizing first size with
  | nil => exact hfirst
  | cons step steps ih =>
      obtain ⟨op, right⟩ := step
      obtain ⟨hright, hsteps⟩ := List.forall_mem_cons.mp hsteps
      rw [List.length_cons, Nat.add_comm steps.length, ← Nat.add_assoc]
      exact ih (hbuild hfirst hright op) fun step hstep =>
        (hsteps step hstep).larger (Nat.le_add_right size 1)

theorem narrows_chainUpTo {limit limit' : Nat} (hlimit : limit ≤ limit') {p q : Reader Expr}
    (hpq : Reader.Narrows (fun e => Fits (levels + 1) size (.expr e)) p q) (operator : Reader ω) :
    Reader.Narrows (fun e => Fits (levels + 1) (size + limit) (.expr e))
      (chainUpTo limit p operator build) (chainUpTo limit' q operator build) := by
  refine hpq.bind fun first hfirst start => ?_
  have hstep : Reader.Narrows (fun step => Fits (levels + 1) size (.expr step.2))
      (do
        let op ← lexeme operator
        let right ← cut p
        return (op, right))
      (do
        let op ← lexeme operator
        let right ← cut q
        return (op, right)) :=
    .after fun op => hpq.cut.bind fun right hright => .pure hright
  refine hstep.many.bind (fun steps hsteps => ?_) start
  refine .refusing (by omega) (fun _ => ⟨_, rfl⟩) fun hshort => .pure ?_
  exact (fits_foldl hbuild hfirst hsteps).larger (by omega)

end

namespace Inner.Narrows

variable {levels levels' size limit limit' : Nat} {inner other : Inner} (hlimit : limit ≤ limit')
include hlimit

theorem disjunctionUpTo (h : inner.Narrows levels size other) :
    Reader.Narrows (fun e => Fits (levels + 1) (size + 5 * limit + 6) (.expr e))
      (disjunctionUpTo limit inner) (disjunctionUpTo limit' other) := by
  have hproduct := narrows_chainUpTo Fits.arithmetic hlimit h.unary multiplicativeOperator
  have hsum := narrows_chainUpTo Fits.arithmetic hlimit hproduct additiveOperator
  have hcomparison := narrows_chainUpTo Fits.comparison hlimit hsum comparisonOperator
  have hconjunction := narrows_chainUpTo Fits.logical hlimit hcomparison andOperator
  refine (narrows_chainUpTo Fits.logical hlimit hconjunction orOperator).mono fun e he => ?_
  exact he.larger (by omega)

theorem aroundUpTo (h : inner.Narrows levels size other) :
    (inner.aroundUpTo limit).Narrows (levels + 1) (size + 5 * limit + 6)
      (other.aroundUpTo limit') where
  expression := h.disjunctionUpTo hlimit
  operand := h.unary.mono fun _ he => he.larger (by omega)
  block := h.conditional.mono fun _ hnode => hnode.larger (by omega)
  braced text := (h.bracedEntries text).mono fun _ hentries => hentries.larger (by omega)

theorem withinUpTo (hlevels : levels ≤ levels') :
    (withinUpTo limit levels).Narrows levels (levels * (5 * limit + 6))
      (withinUpTo limit' levels') := by
  induction levels generalizing levels' with
  | zero =>
      exact {
        expression := .halting _ _
        operand := .halting _ _
        block := .halting _ _
        braced := fun _ => .error _ _ }
  | succ levels ih =>
      obtain ⟨levels', rfl⟩ : ∃ others, levels' = others + 1 := ⟨levels' - 1, by omega⟩
      rw [Nat.succ_mul, ← Nat.add_assoc]
      exact aroundUpTo hlimit (ih (Nat.le_of_succ_le_succ hlevels))

end Inner.Narrows

end Stencil.Template
