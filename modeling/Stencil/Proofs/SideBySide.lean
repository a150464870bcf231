import Stencil.Proofs.Footprint
import Stencil.Render.Evaluate

/-! Two evaluations side by side. A relation between evaluations and one between renderings that all
steps of the evaluator keep holds between the evaluations of every tree whose names the steps may
look up and set. -/

namespace Stencil

open Template

abbrev Steps (σ α : Type) : Type :=
  ExceptT EvalError (StateM σ) α

theorem Steps.bind_apply {σ α β : Type} (x : Steps σ α) (f : α → Steps σ β) (s : σ) :
    (x >>= f) s =
      match x s with
      | (.ok value, after) => f value after
      | (.error error, after) => (.error error, after) := by
  change (ExceptT.bind x f) s = _
  simp only [ExceptT.bind, ExceptT.mk, bind, StateT.bind]
  rcases x s with ⟨_ | _, after⟩ <;> rfl

theorem Eval.bind_apply {α β : Type} (x : Eval α) (f : α → Eval β) (scope : Scope) :
    (x >>= f) scope =
      match x scope with
      | (.ok value, after) => f value after
      | (.error error, after) => (.error error, after) := by
  rw [Steps.bind_apply]
  rcases x scope with ⟨_ | _, after⟩ <;> rfl

theorem Rendering.bind_apply {α β : Type} (x : Rendering α) (f : α → Rendering β)
    (p : Progress) :
    (x >>= f) p =
      match x p with
      | (.ok value, after) => f value after
      | (.error error, after) => (.error error, after) := by
  rw [Steps.bind_apply]
  rcases x p with ⟨_ | _, after⟩ <;> rfl

def Rendering.writeMissing (setting : Setting) (sink : Sink) (literal : String) : Rendering Unit :=
  if setting.strict then throw (.undefinedReference literal) else write sink literal

/-- Relations between the evaluations under two settings, and between the renderings, that the
steps of the evaluator keep as long as they look up and set these names only. -/
structure SideBySide (names : Footprint) (left right : Setting)
    (evals : {α : Type} → Eval α → Eval α → Prop)
    (renderings : {α : Type} → Rendering α → Rendering α → Prop) : Prop where
  pure {α : Type} (value : α) : evals (α := α) (pure value) (pure value)
  bind {α β : Type} {x y : Eval α} {f g : α → Eval β} :
    evals x y → (∀ value, evals (f value) (g value)) → evals (x >>= f) (y >>= g)
  throw {α : Type} (error : EvalError) : evals (α := α) (throw error) (throw error)
  lookup {name : String} : names.reads name → evals (Eval.lookup name) (Eval.lookup name)
  call (receiver : Value) (name : String) (arguments : List Value) :
    evals (Eval.call left receiver name arguments) (Eval.call right receiver name arguments)
  call? (receiver : Value) (name : String) :
    evals (Eval.call? left receiver name) (Eval.call? right receiver name)
  ofRendering {x y : Rendering Unit} :
    renderings x y → evals (Eval.ofRendering x) (Eval.ofRendering y)
  done {α : Type} (value : α) : renderings (α := α) (Pure.pure value) (Pure.pure value)
  next {α β : Type} {x y : Rendering α} {f g : α → Rendering β} :
    renderings x y → (∀ value, renderings (f value) (g value)) →
      renderings (x >>= f) (y >>= g)
  write (sink : Sink) (piece : String) :
    renderings (Rendering.write sink piece) (Rendering.write sink piece)
  writeMissing (sink : Sink) (literal : String) :
    renderings (Rendering.writeMissing left sink literal)
      (Rendering.writeMissing right sink literal)
  bindName {name : String} (value : Value) :
    names.sets name → renderings (Rendering.bind name value) (Rendering.bind name value)
  ofEval {α : Type} {x y : Eval α} :
    evals x y → renderings (Rendering.ofEval x) (Rendering.ofEval y)
  absorbing {x y : Eval Value} :
    evals x y → renderings (Rendering.absorbing x) (Rendering.absorbing y)

namespace SideBySide

variable {names : Footprint} {left right : Setting} {evals : {α : Type} → Eval α → Eval α → Prop}
  {renderings : {α : Type} → Rendering α → Rendering α → Prop}

section Steps

variable (h : SideBySide names left right evals renderings)
include h

theorem property (receiver : Value) (name : String) :
    evals (Eval.property left receiver name) (Eval.property right receiver name) := by
  simp only [Eval.property]
  split
  · exact h.pure _
  · exact h.bind (h.call? receiver name) fun found => h.pure _

theorem textOf (value : Value) : evals (Eval.textOf left value) (Eval.textOf right value) := by
  cases value with
  | object host =>
      refine h.bind (h.call? _ "ToString") ?_
      intro found
      cases found <;> exact h.pure _
  | _ => exact h.pure _

theorem arithmetic (op : ArithmeticOperator) (a b : Value) :
    evals (Eval.arithmetic op a b) (Eval.arithmetic op a b) := by
  simp only [Eval.arithmetic]
  split
  · exact h.pure _
  · exact h.pure _
  · exact h.pure _
  · exact h.throw _

theorem negate (value : Value) : evals (Eval.negate value) (Eval.negate value) := by
  simp only [Eval.negate]
  split
  · exact h.pure _
  · exact h.pure _
  · exact h.throw _

theorem quoted (quote : Option Char) (value : Value) :
    evals (Eval.quoted left quote value) (Eval.quoted right quote value) := by
  simp only [Eval.quoted]
  split
  · exact h.pure _
  · exact h.pure _
  · exact h.bind (h.textOf _) fun text => h.pure _

theorem writeReference (sink : Sink) (r : Reference) (value : Value) :
    renderings (Rendering.writeReference left sink r value)
      (Rendering.writeReference right sink r value) := by
  simp only [Rendering.writeReference]
  split
  · exact h.next (h.ofEval (h.textOf value)) fun text => h.write sink text
  · split
    · exact h.done _
    · exact h.writeMissing sink r.literal

end Steps

/-! Every tree. The induction follows the evaluator, and each part hands on that its names are
covered. -/

mutual

theorem expr (h : SideBySide names left right evals renderings) :
    (e : Expr) → names.Covers (.expr e) → evals (e.eval left) (e.eval right)
  | .literal literal, _ => by
      simp only [Expr.eval]
      exact h.pure _
  | .reference r, hc => by
      simp only [Expr.eval]
      exact h.reference r (hc.child (.exprReference r))
  | .interpolated nodes, hc => by
      simp only [Expr.eval]
      refine h.bind (h.ofRendering (h.coveredNodes .unlimited nodes ?_)) fun text => h.pure _
      exact fun node hnode => hc.child (.interpolated hnode)
  | .map entries, hc => by
      simp only [Expr.eval]
      refine h.bind (h.entries [] entries ?_) fun found => h.pure _
      exact fun entry hentry => hc.child (.mapEntry hentry)
  | .list items, hc => by
      simp only [Expr.eval]
      exact h.bind (h.all items fun e he => hc.child (.item he)) fun found => h.pure _
  | .arithmetic op a b, hc => by
      simp only [Expr.eval]
      exact h.bind (h.expr a (hc.child (.arithmeticLeft op a b))) fun l =>
        h.bind (h.expr b (hc.child (.arithmeticRight op a b))) fun r => h.arithmetic op l r
  | .comparison op a b, hc => by
      simp only [Expr.eval]
      exact h.bind (h.expr a (hc.child (.comparisonLeft op a b))) fun l =>
        h.bind (h.expr b (hc.child (.comparisonRight op a b))) fun r => h.pure _
  | .logical .and a b, hc => by
      simp only [Expr.eval]
      refine h.bind (h.expr a (hc.child (.logicalLeft .and a b))) fun l => ?_
      split
      · exact h.bind (h.expr b (hc.child (.logicalRight .and a b))) fun r => h.pure _
      · exact h.pure _
  | .logical .or a b, hc => by
      simp only [Expr.eval]
      refine h.bind (h.expr a (hc.child (.logicalLeft .or a b))) fun l => ?_
      split
      · exact h.pure _
      · exact h.bind (h.expr b (hc.child (.logicalRight .or a b))) fun r => h.pure _
  | .not operand, hc => by
      simp only [Expr.eval]
      exact h.bind (h.expr operand (hc.child (.notOperand operand))) fun found => h.pure _
  | .negate operand, hc => by
      simp only [Expr.eval]
      exact h.bind (h.expr operand (hc.child (.negateOperand operand))) fun found =>
        h.negate found

theorem all (h : SideBySide names left right evals renderings) :
    (items : List Expr) → (∀ e ∈ items, names.Covers (.expr e)) →
      evals (evalAll left items) (evalAll right items)
  | [], _ => by
      simp only [evalAll]
      exact h.pure _
  | item :: rest, hc => by
      obtain ⟨hitem, hrest⟩ := List.forall_mem_cons.mp hc
      simp only [evalAll]
      exact h.bind (h.expr item hitem) fun value =>
        h.bind (h.all rest hrest) fun values => h.pure _

theorem reference (h : SideBySide names left right evals renderings) :
    (r : Reference) → names.Covers (.reference r) → evals (r.eval left) (r.eval right)
  | .mk quiet root path literal, hc => by
      simp only [Reference.eval]
      refine h.bind (h.lookup (hc.reads .refl)) fun found => ?_
      cases found with
      | none => exact h.pure _
      | some value => exact h.path path (fun a ha => hc.child (.accessor quiet root literal ha)) value

theorem path (h : SideBySide names left right evals renderings) :
    (accessors : List Accessor) → (∀ a ∈ accessors, names.Covers (.accessor a)) →
      (current : Value) → evals (follow left accessors current) (follow right accessors current)
  | [], _, current => by
      simp only [follow]
      exact h.pure _
  | .property name :: rest, hc, current => by
      obtain ⟨-, hrest⟩ := List.forall_mem_cons.mp hc
      simp only [follow]
      split
      · exact h.pure _
      · exact h.bind (h.property current name) fun value => h.path rest hrest value
  | .method name arguments :: rest, hc, current => by
      obtain ⟨hcall, hrest⟩ := List.forall_mem_cons.mp hc
      simp only [follow]
      split
      · exact h.pure _
      · refine h.bind (h.all arguments fun e he => hcall.child (.argument name he)) fun values => ?_
        exact h.bind (h.call current name values) fun value => h.path rest hrest value

theorem entries (h : SideBySide names left right evals renderings) (done : Entries Value) :
    (entries : List MapEntry) → (∀ entry ∈ entries, names.Covers (.entry entry)) →
      evals (evalEntries left done entries) (evalEntries right done entries)
  | [], _ => by
      simp only [evalEntries]
      exact h.pure _
  | .mk key value :: rest, hc => by
      obtain ⟨hentry, hrest⟩ := List.forall_mem_cons.mp hc
      simp only [evalEntries]
      exact h.bind (h.mapValue value (hentry.child (.entryValue key value))) fun found =>
        h.entries (done.put key found) rest hrest

theorem mapValue (h : SideBySide names left right evals renderings) :
    (v : MapValue) → names.Covers (.value v) → evals (v.eval left) (v.eval right)
  | .text nodes, hc => by
      simp only [MapValue.eval]
      refine h.bind (h.ofRendering (h.coveredNodes .unlimited nodes ?_)) fun text => h.pure _
      exact fun node hnode => hc.child (.textNode hnode)
  | .number n, _ => by
      simp only [MapValue.eval]
      exact h.pure _
  | .boolean b, _ => by
      simp only [MapValue.eval]
      exact h.pure _
  | .reference r quote, hc => by
      simp only [MapValue.eval]
      exact h.bind (h.reference r (hc.child (.valueReference r quote))) fun value =>
        h.quoted quote value
  | .map entries, hc => by
      simp only [MapValue.eval]
      refine h.bind (h.entries [] entries ?_) fun found => h.pure _
      exact fun entry hentry => hc.child (.nestedEntry hentry)

theorem coveredNodes (h : SideBySide names left right evals renderings) (sink : Sink) :
    (nodes : List Node) → (∀ node ∈ nodes, names.Covers (.node node)) →
      renderings (renderNodes left sink nodes) (renderNodes right sink nodes)
  | [], _ => by
      simp only [renderNodes]
      exact h.done _
  | .text content :: rest, hc => by
      obtain ⟨-, hrest⟩ := List.forall_mem_cons.mp hc
      simp only [renderNodes]
      exact h.next (h.write sink content) fun _ => h.coveredNodes sink rest hrest
  | .reference r :: rest, hc => by
      obtain ⟨hnode, hrest⟩ := List.forall_mem_cons.mp hc
      simp only [renderNodes]
      exact h.next (h.absorbing (h.reference r (hnode.child (.nodeReference r)))) fun value =>
        h.next (h.writeReference sink r value) fun _ => h.coveredNodes sink rest hrest
  | .set target value :: rest, hc => by
      obtain ⟨hnode, hrest⟩ := List.forall_mem_cons.mp hc
      simp only [renderNodes]
      exact h.next (h.absorbing (h.expr value (hnode.child (.setValue target value)))) fun found =>
        h.next (h.bindName found (hnode.sets .refl)) fun _ => h.coveredNodes sink rest hrest
  | .conditional branches none :: rest, hc => by
      obtain ⟨hnode, hrest⟩ := List.forall_mem_cons.mp hc
      simp only [renderNodes]
      exact h.next (h.branches sink branches fun b hb => hnode.child (.block none hb)) fun _ =>
        h.coveredNodes sink rest hrest
  | .conditional branches (some otherwise) :: rest, hc => by
      obtain ⟨hnode, hrest⟩ := List.forall_mem_cons.mp hc
      simp only [renderNodes]
      refine h.next (h.branches sink branches fun b hb => hnode.child (.block _ hb)) fun taken => ?_
      split
      · refine h.next (h.coveredNodes sink otherwise ?_) fun _ => h.coveredNodes sink rest hrest
        exact fun node hbody => hnode.child (.otherwise branches hbody)
      · exact h.coveredNodes sink rest hrest

theorem branches (h : SideBySide names left right evals renderings) (sink : Sink) :
    (branches : List Branch) → (∀ b ∈ branches, names.Covers (.branch b)) →
      renderings (renderBranches left sink branches) (renderBranches right sink branches)
  | [], _ => by
      simp only [renderBranches]
      exact h.done _
  | .mk condition body :: rest, hc => by
      obtain ⟨hbranch, hrest⟩ := List.forall_mem_cons.mp hc
      simp only [renderBranches]
      refine h.next (h.absorbing (h.expr condition (hbranch.child (.condition condition body))))
        fun value => ?_
      split
      · refine h.next (h.coveredNodes sink body ?_) fun _ => h.done _
        exact fun node hnode => hbranch.child (.body condition hnode)
      · exact h.branches sink rest hrest

end

theorem nodes (h : SideBySide .every left right evals renderings) (sink : Sink)
    (nodes : List Node) : renderings (renderNodes left sink nodes) (renderNodes right sink nodes) :=
  h.coveredNodes sink nodes fun _ _ => Footprint.every_covers _

end SideBySide

end Stencil
