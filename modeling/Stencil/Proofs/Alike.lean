import Stencil.Proofs.SideBySide

/-! Runs from related scopes. A relation of scopes that look-ups cannot tell apart, and that calls
and bindings keep, lets two renders go the same way and end in related scopes. -/

namespace Stencil

open Template

/-- From related scopes the evaluations have one result, and they end in related scopes. -/
def Eval.Alike (related : Scope → Scope → Prop) {α : Type} (x y : Eval α) : Prop :=
  ∀ s s', related s s' → (x s).1 = (y s').1 ∧ related (x s).2 (y s').2

structure Progress.Alike (related : Scope → Scope → Prop) (p p' : Progress) : Prop where
  scope : related p.scope p'.scope
  written : p.written = p'.written
  operandError : p.operandError = p'.operandError

def Rendering.Alike (related : Scope → Scope → Prop) {α : Type} (x y : Rendering α) : Prop :=
  ∀ p p', Progress.Alike related p p' →
    (x p).1 = (y p').1 ∧ Progress.Alike related (x p).2 (y p').2

/-- A relation that the steps of renders keep as long as they look up and set these names only. -/
structure Scope.Lasting (names : Footprint) (setting : Setting)
    (related : Scope → Scope → Prop) : Prop where
  get? {name : String} {s s' : Scope} :
    names.reads name → related s s' → s.context.get? name = s'.context.get? name
  call (receiver : Value) (name : String) (arguments : List Value) :
    Eval.Alike related (Eval.call setting receiver name arguments)
      (Eval.call setting receiver name arguments)
  put {name : String} {s s' : Scope} (value : Value) :
    names.sets name → related s s' →
      related { s with context := s.context.put name value }
        { s' with context := s'.context.put name value }

section Steps

variable {related : Scope → Scope → Prop} {α β : Type}

theorem Eval.Alike.outcome {x y : Eval α} (hxy : Eval.Alike related x y) {s s' : Scope}
    (hs : related s s') :
    ∃ result after after', x s = (result, after) ∧ y s' = (result, after') ∧
      related after after' := by
  obtain ⟨hresult, hafter⟩ := hxy s s' hs
  exact ⟨(x s).1, (x s).2, (y s').2, rfl, Prod.ext hresult.symm rfl, hafter⟩

theorem Rendering.Alike.outcome {x y : Rendering α} (hxy : Rendering.Alike related x y)
    {p p' : Progress} (hp : Progress.Alike related p p') :
    ∃ result after after', x p = (result, after) ∧ y p' = (result, after') ∧
      Progress.Alike related after after' := by
  obtain ⟨hresult, hafter⟩ := hxy p p' hp
  exact ⟨(x p).1, (x p).2, (y p').2, rfl, Prod.ext hresult.symm rfl, hafter⟩

theorem Eval.Alike.bind {x y : Eval α} {f g : α → Eval β} (hxy : Eval.Alike related x y)
    (hfg : ∀ value, Eval.Alike related (f value) (g value)) :
    Eval.Alike related (x >>= f) (y >>= g) := by
  intro s s' hs
  obtain ⟨result, after, after', hx, hy, hafter⟩ := hxy.outcome hs
  rw [Eval.bind_apply, Eval.bind_apply, hx, hy]
  cases result with
  | ok value => exact hfg value after after' hafter
  | error error => exact ⟨rfl, hafter⟩

theorem Rendering.Alike.bind {x y : Rendering α} {f g : α → Rendering β}
    (hxy : Rendering.Alike related x y)
    (hfg : ∀ value, Rendering.Alike related (f value) (g value)) :
    Rendering.Alike related (x >>= f) (y >>= g) := by
  intro p p' hp
  obtain ⟨result, after, after', hx, hy, hafter⟩ := hxy.outcome hp
  rw [Rendering.bind_apply, Rendering.bind_apply, hx, hy]
  cases result with
  | ok value => exact hfg value after after' hafter
  | error error => exact ⟨rfl, hafter⟩

theorem Eval.call?_alike {setting : Setting} {receiver : Value} {name : String}
    (hcall : Eval.Alike related (Eval.call setting receiver name [])
      (Eval.call setting receiver name [])) :
    Eval.Alike related (Eval.call? setting receiver name)
      (Eval.call? setting receiver name) := by
  intro s s' hs
  obtain ⟨result, after, after', hleft, hright, hafter⟩ := hcall.outcome hs
  simp only [Eval.call?, hleft, hright]
  rcases result with (_ | _ | _ | error | _) | value <;> exact ⟨rfl, hafter⟩

theorem Eval.ofRendering_alike {x y : Rendering Unit} (hxy : Rendering.Alike related x y) :
    Eval.Alike related (Eval.ofRendering x) (Eval.ofRendering y) := by
  intro s s' hs
  have hstart : Progress.Alike related (.start s) (.start s') := ⟨hs, rfl, rfl⟩
  obtain ⟨result, after, after', hx, hy, hafter⟩ := hxy.outcome hstart
  simp only [Eval.ofRendering, hx, hy]
  cases result with
  | error error => exact ⟨rfl, hafter.scope⟩
  | ok value =>
      simp only [Progress.text, hafter.operandError, hafter.written]
      cases after'.operandError <;> exact ⟨rfl, hafter.scope⟩

theorem Rendering.write_alike (sink : Sink) (piece : String) :
    Rendering.Alike related (Rendering.write sink piece) (Rendering.write sink piece) := by
  intro p p' hp
  simp only [Rendering.write, hp.written]
  split
  · exact ⟨rfl, hp.scope, rfl, hp.operandError⟩
  · exact ⟨rfl, hp⟩

theorem Rendering.ofEval_alike {x y : Eval α} (hxy : Eval.Alike related x y) :
    Rendering.Alike related (Rendering.ofEval x) (Rendering.ofEval y) := by
  intro p p' hp
  obtain ⟨hresult, hscope⟩ := hxy p.scope p'.scope hp.scope
  exact ⟨hresult, hscope, hp.written, hp.operandError⟩

theorem Rendering.absorbing_alike {x y : Eval Value} (hxy : Eval.Alike related x y) :
    Rendering.Alike related (Rendering.absorbing x) (Rendering.absorbing y) := by
  intro p p' hp
  obtain ⟨result, after, after', hx, hy, hafter⟩ := hxy.outcome hp.scope
  simp only [Rendering.absorbing, hx, hy]
  cases result with
  | ok value => exact ⟨rfl, hafter, hp.written, hp.operandError⟩
  | error error =>
      dsimp only
      split
      · refine ⟨rfl, hafter, hp.written, ?_⟩
        rw [hp.operandError]
      · exact ⟨rfl, hafter, hp.written, hp.operandError⟩

end Steps

section

variable {names : Footprint} {setting : Setting} {related : Scope → Scope → Prop}
  (h : Scope.Lasting names setting related)
include h

theorem sideBySide_alike :
    SideBySide names setting setting (Eval.Alike related) (Rendering.Alike related) where
  pure _ _ _ hs := ⟨rfl, hs⟩
  bind := Eval.Alike.bind
  throw _ _ _ hs := ⟨rfl, hs⟩
  lookup hname _ _ hs := ⟨congrArg Except.ok (h.get? hname hs), hs⟩
  call := h.call
  call? receiver name := Eval.call?_alike (h.call receiver name [])
  ofRendering := Eval.ofRendering_alike
  done _ _ _ hp := ⟨rfl, hp⟩
  next := Rendering.Alike.bind
  write := Rendering.write_alike
  writeMissing sink literal := by
    simp only [Rendering.writeMissing]
    split
    · exact fun _ _ hp => ⟨rfl, hp⟩
    · exact Rendering.write_alike sink literal
  bindName value hname _ _ hp := ⟨rfl, h.put value hname hp.scope, hp.written, hp.operandError⟩
  ofEval := Rendering.ofEval_alike
  absorbing := Rendering.absorbing_alike

/-- Renders from related scopes have one result, write the same pieces and end in related scopes. -/
theorem renderWith_related (sink : Sink) {nodes : List Node}
    (hc : ∀ node ∈ nodes, names.Covers (.node node)) {s s' : Scope} (hs : related s s') :
    (renderWith setting sink nodes s).result = (renderWith setting sink nodes s').result ∧
      (renderWith setting sink nodes s).pieces = (renderWith setting sink nodes s').pieces ∧
      related
        ⟨(renderWith setting sink nodes s).context, (renderWith setting sink nodes s).cache⟩
        ⟨(renderWith setting sink nodes s').context, (renderWith setting sink nodes s').cache⟩ := by
  have hstart : Progress.Alike related (.start s) (.start s') := ⟨hs, rfl, rfl⟩
  obtain ⟨result, after, after', hrender, hrender', hafter⟩ :=
    ((sideBySide_alike h).coveredNodes sink nodes hc).outcome hstart
  simp only [renderWith, hrender, hrender', hafter.operandError, hafter.written, true_and]
  exact hafter.scope

end

end Stencil
