import Stencil.Engine.Basic
import Stencil.Proofs.SideBySide

/-! The bindings that a render makes, one after the other. The log of an evaluation lists them as
they are made, those that are overwritten later as well, and the bindings behind the evaluation are
the ones before it with these put in. -/

namespace Stencil

open Template

/-- What steps bind when they start from a state, in the order in which they do. -/
abbrev Log (σ : Type) : Type :=
  σ → List (String × Value)

namespace Log

variable {σ α : Type}

def nothing : Log σ :=
  fun _ => []

/-- What follows failing steps binds nothing. -/
def andThen (log : Log σ) (x : Steps σ α) (next : α → Log σ) : Log σ :=
  fun s =>
    log s ++
      match x s with
      | (.ok value, after) => next value after
      | (.error _, _) => []

def inScope (log : Log Scope) : Log Progress :=
  fun p => log p.scope

def fromStart (log : Log Progress) : Log Scope :=
  fun scope => log (.start scope)

end Log

mutual

def Template.Expr.log (setting : Setting) : Expr → Log Scope
  | .literal _ => .nothing
  | .reference r => r.log setting
  | .interpolated nodes => .fromStart (logNodes setting .unlimited nodes)
  | .map entries => logEntries setting entries
  | .list items => logAll setting items
  | .arithmetic _ left right | .comparison _ left right =>
      (left.log setting).andThen (left.eval setting) fun _ => right.log setting
  | .logical .and left right =>
      (left.log setting).andThen (left.eval setting) fun value =>
        if value.isTruthy then right.log setting else .nothing
  | .logical .or left right =>
      (left.log setting).andThen (left.eval setting) fun value =>
        if value.isTruthy then .nothing else right.log setting
  | .not operand | .negate operand => operand.log setting

def Template.logAll (setting : Setting) : List Expr → Log Scope
  | [] => .nothing
  | item :: rest => (item.log setting).andThen (item.eval setting) fun _ => logAll setting rest

def Template.Reference.log (setting : Setting) : Reference → Log Scope
  | .mk _ root path _ =>
      Log.nothing.andThen (Eval.lookup root) fun found =>
        match found with
        | none => .nothing
        | some value => logFollow setting path value

def Template.logFollow (setting : Setting) : List Accessor → Value → Log Scope
  | [], _ => .nothing
  | .property name :: rest, current =>
      if current.isNull then .nothing
      else Log.nothing.andThen (Eval.property setting current name) (logFollow setting rest)
  | .method name arguments :: rest, current =>
      if current.isNull then .nothing
      else
        (logAll setting arguments).andThen (evalAll setting arguments) fun arguments =>
          Log.nothing.andThen (Eval.call setting current name arguments) (logFollow setting rest)

def Template.logEntries (setting : Setting) : List MapEntry → Log Scope
  | [] => .nothing
  | .mk _ value :: rest =>
      (value.log setting).andThen (value.eval setting) fun _ => logEntries setting rest

def Template.MapValue.log (setting : Setting) : MapValue → Log Scope
  | .text nodes => .fromStart (logNodes setting .unlimited nodes)
  | .number _ | .boolean _ => .nothing
  | .reference r _ => r.log setting
  | .map entries => logEntries setting entries

def Template.logNodes (setting : Setting) (sink : Sink) : List Node → Log Progress
  | [] => .nothing
  | .text content :: rest =>
      Log.nothing.andThen (Rendering.write sink content) fun _ => logNodes setting sink rest
  | .reference r :: rest =>
      (r.log setting).inScope.andThen (Rendering.absorbing (r.eval setting)) fun value =>
        Log.nothing.andThen (Rendering.writeReference setting sink r value) fun _ =>
          logNodes setting sink rest
  | .set target value :: rest =>
      (value.log setting).inScope.andThen (Rendering.absorbing (value.eval setting)) fun value =>
        Log.andThen (fun _ => [(target, value)]) (Rendering.bind target value) fun _ =>
          logNodes setting sink rest
  | .conditional branches none :: rest =>
      (logBranches setting sink branches).andThen (renderBranches setting sink branches) fun _ =>
        logNodes setting sink rest
  | .conditional branches (some otherwise) :: rest =>
      (logBranches setting sink branches).andThen (renderBranches setting sink branches)
        fun taken =>
        if !taken then
          (logNodes setting sink otherwise).andThen (renderNodes setting sink otherwise) fun _ =>
            logNodes setting sink rest
        else logNodes setting sink rest

def Template.logBranches (setting : Setting) (sink : Sink) : List Branch → Log Progress
  | [] => .nothing
  | .mk condition body :: rest =>
      (condition.log setting).inScope.andThen (Rendering.absorbing (condition.eval setting))
        fun value =>
          if value.isTruthy then logNodes setting sink body else logBranches setting sink rest

end

class HasContext (σ : Type) where
  context : σ → Context

export HasContext (context)

instance : HasContext Scope where
  context := Scope.context

instance : HasContext Progress where
  context p := p.scope.context

def Context.putAll (c : Context) (bound : List (String × Value)) : Context :=
  bound.foldl (fun c (name, value) => c.put name value) c

theorem Context.putAll_append (c : Context) (bound more : List (String × Value)) :
    c.putAll (bound ++ more) = (c.putAll bound).putAll more :=
  List.foldl_append

/-- The log accounts for all that the steps bind. -/
def Logged {σ α : Type} [HasContext σ] (x : Steps σ α) (log : Log σ) : Prop :=
  ∀ s, context (x s).2 = (context s).putAll (log s)

namespace Logged

variable {σ α β : Type} [HasContext σ]

theorem pure (value : α) : Logged (Pure.pure value : Steps σ α) .nothing :=
  fun _ => rfl

theorem throw (error : EvalError) : Logged (MonadExcept.throw error : Steps σ α) .nothing :=
  fun _ => rfl

theorem andThen {x : Steps σ α} {f : α → Steps σ β} {log : Log σ} {next : α → Log σ}
    (h : Logged x log) (hnext : ∀ value, Logged (f value) (next value)) :
    Logged (x >>= f) (log.andThen x next) := by
  intro s
  have hfirst := h s
  rw [Steps.bind_apply, Log.andThen, Context.putAll_append, ← hfirst]
  rcases x s with ⟨error | value, after⟩
  · rfl
  · exact hnext value after

theorem last {x : Steps σ α} {f : α → Steps σ β} {log : Log σ} (h : Logged x log)
    (hnext : ∀ value, Logged (f value) .nothing) : Logged (x >>= f) log := by
  have hall := h.andThen hnext
  have hsame : log.andThen x (fun _ => .nothing) = log := by
    funext s
    simp only [Log.andThen]
    split <;> exact List.append_nil _
  rwa [hsame] at hall

theorem lookup (name : String) : Logged (Eval.lookup name) .nothing :=
  fun _ => rfl

theorem call (setting : Setting) (receiver : Value) (name : String) (arguments : List Value) :
    Logged (Eval.call setting receiver name arguments) .nothing :=
  fun _ => rfl

theorem call? (setting : Setting) (receiver : Value) (name : String) :
    Logged (Eval.call? setting receiver name) .nothing := by
  intro s
  have hcall := call setting receiver name [] s
  simp only [Eval.call?]
  generalize Eval.call setting receiver name [] s = outcome at hcall
  obtain ⟨result, after⟩ := outcome
  split <;> rename_i heq <;> cases heq <;> exact hcall

theorem property (setting : Setting) (receiver : Value) (name : String) :
    Logged (Eval.property setting receiver name) .nothing := by
  simp only [Eval.property]
  split
  · exact pure _
  · exact (call? setting receiver name).last fun _ => pure _

theorem textOf (setting : Setting) (value : Value) :
    Logged (Eval.textOf setting value) .nothing := by
  unfold Eval.textOf
  split
  · refine (call? setting _ _).last fun found => ?_
    cases found with
    | none => exact pure _
    | some text => exact pure _
  · exact pure _

theorem arithmetic (op : ArithmeticOperator) (left right : Value) :
    Logged (Eval.arithmetic op left right) .nothing := by
  unfold Eval.arithmetic
  split
  · exact pure _
  · exact pure _
  · exact pure _
  · exact throw _

theorem negate (value : Value) : Logged (Eval.negate value) .nothing := by
  unfold Eval.negate
  split
  · exact pure _
  · exact pure _
  · exact throw _

theorem quoted (setting : Setting) (quote : Option Char) (value : Value) :
    Logged (Eval.quoted setting quote value) .nothing := by
  unfold Eval.quoted
  split
  · exact pure _
  · exact pure _
  · exact (textOf setting _).last fun _ => pure _

theorem write (sink : Sink) (piece : String) : Logged (Rendering.write sink piece) .nothing := by
  intro p
  simp only [Rendering.write]
  split <;> rfl

theorem ofEval {x : Eval α} {log : Log Scope} (h : Logged x log) :
    Logged (Rendering.ofEval x) log.inScope :=
  fun p => h p.scope

theorem bind (name : String) (value : Value) :
    Logged (Rendering.bind name value) fun _ => [(name, value)] :=
  fun _ => rfl

theorem absorbing {x : Eval Value} {log : Log Scope} (h : Logged x log) :
    Logged (Rendering.absorbing x) log.inScope := by
  intro p
  have hscope := h p.scope
  simp only [Rendering.absorbing]
  generalize x p.scope = outcome at hscope ⊢
  obtain ⟨error | value, scope⟩ := outcome
  · dsimp only
    split <;> exact hscope
  · exact hscope

theorem ofRendering {x : Rendering Unit} {log : Log Progress} (h : Logged x log) :
    Logged (Eval.ofRendering x) log.fromStart := by
  intro scope
  have hstart := h (.start scope)
  simp only [Eval.ofRendering]
  generalize x (.start scope) = outcome at hstart ⊢
  obtain ⟨error | value, p⟩ := outcome
  · exact hstart
  · dsimp only
    split <;> exact hstart

theorem writeReference (setting : Setting) (sink : Sink) (r : Reference) (value : Value) :
    Logged (Rendering.writeReference setting sink r value) .nothing := by
  unfold Rendering.writeReference
  split
  · exact (ofEval (textOf setting value)).last (write sink)
  · split
    · exact pure ()
    · split
      · exact throw _
      · exact write sink _

theorem ite {x y : Steps σ α} {log log' : Log σ} {c : Prop} [Decidable c] (h : Logged x log)
    (h' : Logged y log') : Logged (if c then x else y) (if c then log else log') := by
  split
  · exact h
  · exact h'

mutual

theorem expr (setting : Setting) : (e : Expr) → Logged (e.eval setting) (e.log setting)
  | .literal literal => by
      simp only [Expr.eval, Expr.log]
      exact pure _
  | .reference r => by
      simp only [Expr.eval, Expr.log]
      exact reference setting r
  | .interpolated nodes => by
      simp only [Expr.eval, Expr.log]
      exact (ofRendering (renderNodes setting .unlimited nodes)).last fun _ => pure _
  | .map entries => by
      simp only [Expr.eval, Expr.log]
      exact (mapEntries setting [] entries).last fun _ => pure _
  | .list items => by
      simp only [Expr.eval, Expr.log]
      exact (all setting items).last fun _ => pure _
  | .arithmetic op left right => by
      simp only [Expr.eval, Expr.log]
      exact (expr setting left).andThen fun _ =>
        (expr setting right).last fun _ => arithmetic op _ _
  | .comparison op left right => by
      simp only [Expr.eval, Expr.log]
      exact (expr setting left).andThen fun _ => (expr setting right).last fun _ => pure _
  | .logical .and left right => by
      simp only [Expr.eval, Expr.log]
      exact (expr setting left).andThen fun _ =>
        ite ((expr setting right).last fun _ => pure _) (pure _)
  | .logical .or left right => by
      simp only [Expr.eval, Expr.log]
      exact (expr setting left).andThen fun _ =>
        ite (pure _) ((expr setting right).last fun _ => pure _)
  | .not operand => by
      simp only [Expr.eval, Expr.log]
      exact (expr setting operand).last fun _ => pure _
  | .negate operand => by
      simp only [Expr.eval, Expr.log]
      exact (expr setting operand).last negate

theorem all (setting : Setting) :
    (items : List Expr) → Logged (evalAll setting items) (logAll setting items)
  | [] => by
      simp only [evalAll, logAll]
      exact pure _
  | item :: rest => by
      simp only [evalAll, logAll]
      exact (expr setting item).andThen fun _ => (all setting rest).last fun _ => pure _

theorem reference (setting : Setting) :
    (r : Reference) → Logged (r.eval setting) (r.log setting)
  | .mk _ root path _ => by
      simp only [Reference.eval, Reference.log]
      refine (lookup root).andThen fun found => ?_
      cases found with
      | none => exact pure _
      | some value => exact follow setting path value

theorem follow (setting : Setting) :
    (path : List Accessor) → (current : Value) →
      Logged (Template.follow setting path current) (logFollow setting path current)
  | [], current => by
      simp only [Template.follow, logFollow]
      exact pure _
  | .property name :: rest, current => by
      simp only [Template.follow, logFollow]
      exact ite (pure _) ((property setting current name).andThen (follow setting rest))
  | .method name arguments :: rest, current => by
      simp only [Template.follow, logFollow]
      exact ite (pure _) ((all setting arguments).andThen fun arguments =>
        (call setting current name arguments).andThen (follow setting rest))

theorem mapEntries (setting : Setting) (done : Entries Value) :
    (entries : List MapEntry) →
      Logged (evalEntries setting done entries) (logEntries setting entries)
  | [] => by
      simp only [evalEntries, logEntries]
      exact pure _
  | .mk key value :: rest => by
      simp only [evalEntries, logEntries]
      exact (mapValue setting value).andThen fun found =>
        mapEntries setting (done.put key found) rest

theorem mapValue (setting : Setting) :
    (value : MapValue) → Logged (value.eval setting) (value.log setting)
  | .text nodes => by
      simp only [MapValue.eval, MapValue.log]
      exact (ofRendering (renderNodes setting .unlimited nodes)).last fun _ => pure _
  | .number n => by
      simp only [MapValue.eval, MapValue.log]
      exact pure _
  | .boolean b => by
      simp only [MapValue.eval, MapValue.log]
      exact pure _
  | .reference r quote => by
      simp only [MapValue.eval, MapValue.log]
      exact (reference setting r).last (quoted setting quote)
  | .map entries => by
      simp only [MapValue.eval, MapValue.log]
      exact (mapEntries setting [] entries).last fun _ => pure _

theorem renderNodes (setting : Setting) (sink : Sink) :
    (nodes : List Node) →
      Logged (Template.renderNodes setting sink nodes) (logNodes setting sink nodes)
  | [] => by
      simp only [Template.renderNodes, logNodes]
      exact pure ()
  | .text content :: rest => by
      simp only [Template.renderNodes, logNodes]
      exact (write sink content).andThen fun _ => renderNodes setting sink rest
  | .reference r :: rest => by
      simp only [Template.renderNodes, logNodes]
      exact (absorbing (reference setting r)).andThen fun value =>
        (writeReference setting sink r value).andThen fun _ => renderNodes setting sink rest
  | .set target value :: rest => by
      simp only [Template.renderNodes, logNodes]
      exact (absorbing (expr setting value)).andThen fun value =>
        (bind target value).andThen fun _ => renderNodes setting sink rest
  | .conditional branches none :: rest => by
      simp only [Template.renderNodes, logNodes]
      exact (renderBranches setting sink branches).andThen fun _ => renderNodes setting sink rest
  | .conditional branches (some otherwise) :: rest => by
      simp only [Template.renderNodes, logNodes]
      exact (renderBranches setting sink branches).andThen fun _ =>
        ite ((renderNodes setting sink otherwise).andThen fun _ => renderNodes setting sink rest)
          (renderNodes setting sink rest)

theorem renderBranches (setting : Setting) (sink : Sink) :
    (branches : List Branch) →
      Logged (Template.renderBranches setting sink branches) (logBranches setting sink branches)
  | [] => by
      simp only [Template.renderBranches, logBranches]
      exact pure false
  | .mk condition body :: rest => by
      simp only [Template.renderBranches, logBranches]
      exact (absorbing (expr setting condition)).andThen fun _ =>
        ite ((renderNodes setting sink body).last fun _ => pure true)
          (renderBranches setting sink rest)

end

end Logged

end Stencil
