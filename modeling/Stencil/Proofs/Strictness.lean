import Stencil.Engine.Basic
import Stencil.Proofs.SideBySide

/-! A strict render is a lenient render that may stop early. Up to the first reference that yields
nothing the two go the same way; there the strict one stops, no step on the way out takes its error
for anything else, and the lenient one only adds to what is written. -/

namespace Stencil

def Refused {α : Type} (result : Except EvalError α) : Prop :=
  ∃ literal, result = .error (.undefinedReference literal)

/-- Wherever the strict evaluation does not refuse, it does what the lenient one does. -/
def Eval.Refines {α : Type} (strict lenient : Eval α) : Prop :=
  ∀ scope, Refused (strict scope).1 ∨ strict scope = lenient scope

/-- A strict rendering that stops has written a part of what the lenient one writes, and one that
does not stop does the same. The lenient one keeps what is written. -/
structure Rendering.Refines {α : Type} (strict lenient : Rendering α) : Prop where
  keeps : ∀ p, p.written <:+ (lenient p).2.written
  agrees : ∀ p,
    Refused (strict p).1 ∧ (strict p).2.written <:+ (lenient p).2.written ∨ strict p = lenient p

section Steps

variable {α β : Type}

theorem Refused.exists_eq {σ : Type} {outcome : Except EvalError α × σ} (h : Refused outcome.1) :
    ∃ literal after, outcome = (.error (.undefinedReference literal), after) := by
  obtain ⟨literal, hresult⟩ := h
  exact ⟨literal, outcome.2, Prod.ext hresult rfl⟩

theorem Eval.Refines.refl (x : Eval α) : Eval.Refines x x :=
  fun _ => .inr rfl

theorem Eval.Refines.bind {x y : Eval α} {f g : α → Eval β} (hxy : Eval.Refines x y)
    (hfg : ∀ value, Eval.Refines (f value) (g value)) : Eval.Refines (x >>= f) (y >>= g) := by
  intro scope
  rw [Eval.bind_apply, Eval.bind_apply]
  rcases hxy scope with hrefused | hsame
  · obtain ⟨literal, after, hx⟩ := hrefused.exists_eq
    rw [hx]
    exact .inl ⟨literal, rfl⟩
  · rw [hsame]
    rcases y scope with ⟨error | value, after⟩
    · exact .inr rfl
    · exact hfg value after

theorem Eval.Refines.ofRendering {x y : Rendering Unit} (hxy : Rendering.Refines x y) :
    Eval.Refines (Eval.ofRendering x) (Eval.ofRendering y) := by
  intro scope
  simp only [Eval.ofRendering]
  rcases hxy.agrees (.start scope) with ⟨hrefused, -⟩ | hsame
  · obtain ⟨literal, after, hx⟩ := hrefused.exists_eq
    rw [hx]
    exact .inl ⟨literal, rfl⟩
  · rw [hsame]
    exact .inr rfl

theorem Rendering.Refines.same {x : Rendering α} (hkeeps : ∀ p, p.written <:+ (x p).2.written) :
    Rendering.Refines x x :=
  ⟨hkeeps, fun _ => .inr rfl⟩

theorem Rendering.Refines.bind {x y : Rendering α} {f g : α → Rendering β}
    (hxy : Rendering.Refines x y) (hfg : ∀ value, Rendering.Refines (f value) (g value)) :
    Rendering.Refines (x >>= f) (y >>= g) where
  keeps p := by
    have hstep := hxy.keeps p
    rw [Rendering.bind_apply]
    generalize y p = b at hstep
    obtain ⟨error | value, after⟩ := b
    · exact hstep
    · exact hstep.trans ((hfg value).keeps after)
  agrees p := by
    rw [Rendering.bind_apply, Rendering.bind_apply]
    rcases hxy.agrees p with ⟨hrefused, hwritten⟩ | hsame
    · obtain ⟨literal, stopped, hx⟩ := hrefused.exists_eq
      rw [hx] at hwritten ⊢
      refine .inl ⟨⟨literal, rfl⟩, ?_⟩
      -- behind the place where the strict one stopped, the lenient one may go on
      generalize y p = b at hwritten
      obtain ⟨error | value, after⟩ := b
      · exact hwritten
      · exact hwritten.trans ((hfg value).keeps after)
    · rw [hsame]
      rcases y p with ⟨error | value, after⟩
      · exact .inr rfl
      · exact (hfg value).agrees after

theorem Rendering.keeps_write (sink : Sink) (piece : String) (p : Progress) :
    p.written <:+ (Rendering.write sink piece p).2.written := by
  simp only [Rendering.write]
  split
  · exact List.suffix_cons piece p.written
  · exact List.suffix_rfl

theorem Rendering.Refines.write (sink : Sink) (piece : String) :
    Rendering.Refines (Rendering.write sink piece) (Rendering.write sink piece) :=
  .same (Rendering.keeps_write sink piece)

theorem Rendering.Refines.ofEval {x y : Eval α} (hxy : Eval.Refines x y) :
    Rendering.Refines (Rendering.ofEval x) (Rendering.ofEval y) where
  keeps _ := List.suffix_rfl
  agrees p := by
    rcases hxy p.scope with hrefused | hsame
    · exact .inl ⟨hrefused, List.suffix_rfl⟩
    · refine .inr ?_
      simp only [Rendering.ofEval, hsame]

theorem Rendering.written_absorbing (x : Eval Value) (p : Progress) :
    (Rendering.absorbing x p).2.written = p.written := by
  simp only [Rendering.absorbing]
  rcases x p.scope with ⟨error | value, scope⟩
  · dsimp only
    split <;> rfl
  · rfl

/-- A refusal is no operand error, so it is not absorbed. -/
theorem Rendering.Refines.absorbing {x y : Eval Value} (hxy : Eval.Refines x y) :
    Rendering.Refines (Rendering.absorbing x) (Rendering.absorbing y) where
  keeps p := (Rendering.written_absorbing y p).symm ▸ List.suffix_rfl
  agrees p := by
    rcases hxy p.scope with hrefused | hsame
    · obtain ⟨literal, after, hx⟩ := hrefused.exists_eq
      refine .inl ⟨⟨literal, ?_⟩, ?_⟩
      · simp only [Rendering.absorbing, hx]
        rfl
      · have hsame := (Rendering.written_absorbing x p).trans (Rendering.written_absorbing y p).symm
        exact hsame ▸ List.suffix_rfl
    · refine .inr ?_
      simp only [Rendering.absorbing, hsame]

end Steps

theorem sideBySide_refines (registry : Registry) :
    SideBySide .every { registry, strict := true } { registry, strict := false } Eval.Refines
      Rendering.Refines where
  pure _ := .refl _
  bind := Eval.Refines.bind
  throw _ := .refl _
  lookup _ := .refl _
  call _ _ _ := .refl _
  call? _ _ := .refl _
  ofRendering := Eval.Refines.ofRendering
  done _ := .same fun _ => List.suffix_rfl
  next := Rendering.Refines.bind
  write := Rendering.Refines.write
  writeMissing sink literal :=
    ⟨Rendering.keeps_write sink literal,
      fun p => .inl ⟨⟨literal, rfl⟩, Rendering.keeps_write sink literal p⟩⟩
  bindName _ _ := .same fun _ => List.suffix_rfl
  ofEval := Rendering.Refines.ofEval
  absorbing := Rendering.Refines.absorbing

theorem joined_prefix {pieces more : List String} (h : pieces <:+ more) :
    ∃ rest, String.join more.reverse = String.join pieces.reverse ++ rest := by
  obtain ⟨front, rfl⟩ := h
  exact ⟨String.join front.reverse, by rw [List.reverse_append, String.join_append]⟩

/-- Strictness only refuses: a strict render either ends at a reference that yields nothing, with a
part of the lenient output written, or does not differ from the lenient render at all. -/
theorem strict_only_refuses (config : Config) (registry : Registry) (sink : Sink)
    (template : Template) (context : Context) :
    let strict :=
      (Engine.ofConfig { config with strict := true } registry).render sink template context
    let lenient :=
      (Engine.ofConfig { config with strict := false } registry).render sink template context
    (∃ literal, strict.result = .error (.eval template.label (.undefinedReference literal)) ∧
        ∃ rest, lenient.output = strict.output ++ rest) ∨
      strict.result = lenient.result ∧ strict.output = lenient.output ∧
        strict.context = lenient.context := by
  intro strict lenient
  have hrun := ((sideBySide_refines registry).nodes sink template.nodes).agrees
    (.start { context, cache := .empty config.capacity config.capacity_pos })
  rcases hrun with ⟨hrefused, hwritten⟩ | hsame
  · obtain ⟨literal, after, hstrict⟩ := hrefused.exists_eq
    refine .inl ⟨literal, ?_, joined_prefix hwritten⟩
    simp only [strict, Engine.render, Engine.ofConfig, Engine.setting, Template.renderWith, hstrict]
    rfl
  · refine .inr ?_
    simp only [strict, lenient, Engine.render, Engine.ofConfig, Engine.setting,
      Template.renderWith, hsame, and_self]

end Stencil
