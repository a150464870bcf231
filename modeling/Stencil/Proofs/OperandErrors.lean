import Stencil.Proofs.SideBySide

/-! Operand errors never cut a render short. What nodes add to a render depends on what was written
before them through the sink only, and not at all on the operand errors that were noted before them.
So two lists of nodes in a row render as the one after the other, and of all operand errors that arise
the first one is reported. -/

namespace Stencil

open Template

def Sink.after (sink : Sink) (pieces : List String) : Sink where
  admits written piece := sink.admits (written ++ pieces.reverse) piece

def Outcome.aborted (o : Outcome) : Bool :=
  match o.result with
  | .ok _ => false
  | .error error => !error.isOperandError

def Eval.operandError? {α : Type} (x : Eval α) (scope : Scope) : Option EvalError :=
  match (x scope).1 with
  | .ok _ => none
  | .error error => if error.isOperandError then some error else none

abbrev ErrorTrace : Type :=
  Progress → List EvalError

namespace ErrorTrace

def own (x : Eval Value) : ErrorTrace :=
  fun p => (x.operandError? p.scope).toList

/-- The errors of what comes after a rendering, which it may not come to. -/
def after {α : Type} (x : Rendering α) (next : α → ErrorTrace) : ErrorTrace :=
  fun p =>
    match x p with
    | (.ok value, reached) => next value reached
    | (.error _, _) => []

theorem after_nil {α : Type} (x : Rendering α) : after x (fun _ _ => []) = fun _ => [] := by
  funext p
  simp only [after]
  split <;> rfl

end ErrorTrace

mutual

def Template.Node.errors (setting : Setting) (sink : Sink) : Node → ErrorTrace
  | .text _ => fun _ => []
  | .reference r => .own (r.eval setting)
  | .set _ value => .own (value.eval setting)
  | .conditional branches none => branchErrors setting sink branches
  | .conditional branches (some otherwise) => fun p =>
      branchErrors setting sink branches p ++
        ErrorTrace.after (renderBranches setting sink branches)
          (fun taken q => if taken then [] else nodeErrors setting sink otherwise q) p

def Template.nodeErrors (setting : Setting) (sink : Sink) : List Node → ErrorTrace
  | [] => fun _ => []
  | node :: rest => fun p =>
      node.errors setting sink p ++
        ErrorTrace.after (renderNodes setting sink [node])
          (fun _ => nodeErrors setting sink rest) p

def Template.branchErrors (setting : Setting) (sink : Sink) : List Branch → ErrorTrace
  | [] => fun _ => []
  | .mk condition body :: rest => fun p =>
      ErrorTrace.own (condition.eval setting) p ++
        ErrorTrace.after (Rendering.absorbing (condition.eval setting)) (fun value q =>
          if value.isTruthy then nodeErrors setting sink body q
          else branchErrors setting sink rest q) p

end

theorem Template.renderNodes_append (setting : Setting) (sink : Sink) (front rest : List Node) :
    renderNodes setting sink (front ++ rest) =
      (do renderNodes setting sink front; renderNodes setting sink rest) := by
  induction front with
  | nil => rfl
  | cons node front ih =>
      rw [List.cons_append]
      cases node with
      | text content => simp only [renderNodes, ih, bind_assoc]
      | reference r => simp only [renderNodes, ih, bind_assoc]
      | set target value => simp only [renderNodes, ih, bind_assoc]
      | conditional branches otherwise =>
          cases otherwise with
          | none => simp only [renderNodes, ih, bind_assoc]
          | some otherwise =>
              simp only [renderNodes, ih, bind_assoc]
              congr
              funext taken
              cases taken <;> simp [bind_assoc]

/-- The rendering notes the first error of the trace, if none was noted before it. -/
def Rendering.Notes {α : Type} (x : Rendering α) (trace : ErrorTrace) : Prop :=
  ∀ p, (x p).2.operandError = (p.operandError <|> (trace p).head?)

namespace Rendering.Notes

variable {α β : Type}

theorem orElse_head?_append (noted : Option EvalError) (errors others : List EvalError) :
    (noted <|> (errors ++ others).head?) = ((noted <|> errors.head?) <|> others.head?) := by
  cases noted <;> cases errors <;> rfl

theorem of_unchanged {x : Rendering α} (h : ∀ p, (x p).2.operandError = p.operandError) :
    Notes x fun _ => [] := by
  intro p
  rw [h]
  cases p.operandError <;> rfl

theorem bind {x : Rendering α} {own : ErrorTrace} {f : α → Rendering β} {next : α → ErrorTrace}
    (hx : Notes x own) (hf : ∀ value, Notes (f value) (next value)) :
    Notes (x >>= f) fun p => own p ++ ErrorTrace.after x next p := by
  intro p
  have hown := hx p
  rw [Rendering.bind_apply, orElse_head?_append, ← hown]
  simp only [ErrorTrace.after]
  rcases x p with ⟨error | value, reached⟩
  · cases reached.operandError <;> rfl
  · exact hf value reached

/-- A rendering before others that have no errors of their own. -/
theorem bind_silent {x : Rendering α} {own : ErrorTrace} {f : α → Rendering β}
    (hx : Notes x own) (hf : ∀ value, Notes (f value) fun _ => []) : Notes (x >>= f) own := by
  have hbind := hx.bind hf
  simp only [ErrorTrace.after_nil, List.append_nil] at hbind
  exact hbind

theorem pure (value : α) : Notes (Pure.pure value : Rendering α) fun _ => [] :=
  of_unchanged fun _ => rfl

theorem absorbing (x : Eval Value) : Notes (Rendering.absorbing x) (.own x) := by
  intro p
  simp only [Rendering.absorbing, ErrorTrace.own, Eval.operandError?]
  rcases x p.scope with ⟨error | value, scope⟩
  · dsimp only
    split
    · rfl
    · cases p.operandError <;> rfl
  · cases p.operandError <;> rfl

theorem write (sink : Sink) (piece : String) : Notes (Rendering.write sink piece) fun _ => [] := by
  refine of_unchanged fun p => ?_
  simp only [Rendering.write]
  split <;> rfl

theorem writeReference (setting : Setting) (sink : Sink) (r : Reference) (value : Value) :
    Notes (Rendering.writeReference setting sink r value) fun _ => [] := by
  simp only [Rendering.writeReference]
  split
  · have htext : Notes (Rendering.ofEval (Eval.textOf setting value)) fun _ => [] :=
      of_unchanged fun _ => rfl
    exact htext.bind_silent fun text => write sink text
  · split
    · exact .pure _
    · split
      · exact of_unchanged fun _ => rfl
      · exact write sink r.literal

end Rendering.Notes

section

variable (setting : Setting) (sink : Sink)

mutual

theorem Template.notes_node :
    (node : Node) → (renderNodes setting sink [node]).Notes (node.errors setting sink)
  | .text content => by
      simp only [renderNodes, Node.errors]
      exact (Rendering.Notes.write sink content).bind_silent fun _ => .pure _
  | .reference r => by
      simp only [renderNodes, Node.errors]
      refine (Rendering.Notes.absorbing _).bind_silent fun value => ?_
      exact (Rendering.Notes.writeReference setting sink r value).bind_silent fun _ => .pure _
  | .set target value => by
      simp only [renderNodes, Node.errors]
      refine (Rendering.Notes.absorbing _).bind_silent fun found => ?_
      exact .of_unchanged fun _ => rfl
  | .conditional branches none => by
      simp only [renderNodes, Node.errors]
      exact (notes_branches branches).bind_silent fun _ => .pure _
  | .conditional branches (some otherwise) => by
      simp only [renderNodes, Node.errors]
      refine (notes_branches branches).bind fun taken => ?_
      cases taken with
      | true => exact .pure _
      | false => exact (notes_nodes otherwise).bind_silent fun _ => .pure _

theorem Template.notes_nodes :
    (nodes : List Node) → (renderNodes setting sink nodes).Notes (nodeErrors setting sink nodes)
  | [] => by
      simp only [renderNodes, nodeErrors]
      exact .pure _
  | node :: rest => by
      rw [← List.singleton_append, renderNodes_append, List.singleton_append]
      simp only [nodeErrors]
      exact (notes_node node).bind fun _ => notes_nodes rest

theorem Template.notes_branches :
    (branches : List Branch) →
      (renderBranches setting sink branches).Notes (branchErrors setting sink branches)
  | [] => by
      simp only [renderBranches, branchErrors]
      exact .pure _
  | .mk condition body :: rest => by
      simp only [renderBranches, branchErrors]
      refine (Rendering.Notes.absorbing _).bind fun value => ?_
      cases value.isTruthy with
      | true => exact (notes_nodes body).bind_silent fun _ => .pure _
      | false => exact notes_branches rest

end

end

theorem Eval.call?_error {setting : Setting} {receiver : Value} {name : String} {scope : Scope}
    {error : EvalError} (h : (call? setting receiver name scope).1 = .error error) :
    error.isOperandError = false := by
  simp only [call?, call] at h
  generalize setting.registry.call scope.cache receiver name [] = outcome at h
  obtain ⟨failure | value, cache⟩ := outcome
  · dsimp only [Except.mapError] at h
    split at h <;> cases h
    rfl
  · cases h

theorem Eval.textOf_error {setting : Setting} {value : Value} {scope : Scope} {error : EvalError}
    (h : (textOf setting value scope).1 = .error error) : error.isOperandError = false := by
  cases value with
  | object host =>
      simp only [textOf, Eval.bind_apply] at h
      have hcall := @Eval.call?_error setting (.object host) "ToString" scope
      generalize call? setting (.object host) "ToString" scope = outcome at h hcall
      obtain ⟨failure | found, reached⟩ := outcome
      · cases h
        exact hcall rfl
      · cases found <;> cases h
  | _ => cases h

/-- The progress with what was written and noted before it. -/
def Progress.behind (p : Progress) (past : List String) (noted : Option EvalError) : Progress where
  scope := p.scope
  written := p.written ++ past
  operandError := noted <|> p.operandError

theorem Progress.start_behind (p : Progress) :
    (start p.scope).behind p.written p.operandError = p := by
  cases p with
  | mk scope written operandError => cases operandError <;> rfl

/-- `x` does behind a past what `y` does from nothing. It stops at no operand error and notes nothing
else. -/
structure Rendering.Resumes (past : List String) (noted : Option EvalError) {α : Type}
    (x y : Rendering α) : Prop where
  resumes : ∀ p, x (p.behind past noted) = ((y p).1, (y p).2.behind past noted)
  stops : ∀ p error, (y p).1 = .error error → error.isOperandError = false
  notes : ∀ p error, (y p).2.operandError = some error →
    p.operandError = some error ∨ error.isOperandError = true

namespace Rendering.Resumes

variable {past : List String} {noted : Option EvalError} {α β : Type}

theorem pure (value : α) :
    Resumes past noted (Pure.pure value : Rendering α) (Pure.pure value) where
  resumes _ := rfl
  stops _ _ h := nomatch h
  notes _ _ h := .inl h

theorem bind {x y : Rendering α} {f g : α → Rendering β} (hxy : Resumes past noted x y)
    (hfg : ∀ value, Resumes past noted (f value) (g value)) :
    Resumes past noted (x >>= f) (y >>= g) where
  resumes p := by
    rw [Rendering.bind_apply, Rendering.bind_apply, hxy.resumes]
    rcases y p with ⟨error | value, reached⟩
    · rfl
    · exact (hfg value).resumes reached
  stops p error h := by
    have hstops := hxy.stops p
    rw [Rendering.bind_apply] at h
    generalize y p = outcome at h hstops
    obtain ⟨error' | value, reached⟩ := outcome
    · cases h
      exact hstops error rfl
    · exact (hfg value).stops reached error h
  notes p error h := by
    have hnotes := hxy.notes p
    rw [Rendering.bind_apply] at h
    generalize y p = outcome at h hnotes
    obtain ⟨error' | value, reached⟩ := outcome
    · exact hnotes error h
    · rcases (hfg value).notes reached error h with hreached | hoperand
      · exact hnotes error hreached
      · exact .inr hoperand

theorem write (sink : Sink) (pieces : List String) (piece : String) :
    Resumes pieces.reverse noted (Rendering.write sink piece)
      (Rendering.write (sink.after pieces) piece) where
  resumes p := by
    have hadmits : sink.admits (p.behind pieces.reverse noted).written piece =
        (sink.after pieces).admits p.written piece := rfl
    simp only [Rendering.write, hadmits]
    split <;> rfl
  stops p error h := by
    simp only [Rendering.write] at h
    split at h <;> cases h
    rfl
  notes p error h := by
    simp only [Rendering.write] at h
    split at h <;> exact .inl h

theorem throw_undefined (literal : String) :
    Resumes past noted (throw (.undefinedReference literal) : Rendering α)
      (throw (.undefinedReference literal)) where
  resumes _ := rfl
  stops p error h := by
    cases h
    rfl
  notes _ _ h := .inl h

theorem bindName (name : String) (value : Value) :
    Resumes past noted (Rendering.bind name value) (Rendering.bind name value) where
  resumes _ := rfl
  stops _ _ h := nomatch h
  notes _ _ h := .inl h

theorem absorbing (x : Eval Value) :
    Resumes past noted (Rendering.absorbing x) (Rendering.absorbing x) where
  resumes p := by
    simp only [Rendering.absorbing, Progress.behind]
    rcases x p.scope with ⟨error | value, scope⟩
    · dsimp only
      split
      · cases noted <;> rfl
      · rfl
    · rfl
  stops p error h := by
    simp only [Rendering.absorbing] at h
    generalize x p.scope = outcome at h
    obtain ⟨error' | value, scope⟩ := outcome
    · dsimp only at h
      split at h <;> cases h
      rename_i hoperand
      exact Bool.eq_false_iff.mpr hoperand
    · cases h
  notes p error h := by
    simp only [Rendering.absorbing] at h
    generalize x p.scope = outcome at h
    obtain ⟨error' | value, scope⟩ := outcome
    · dsimp only at h
      split at h
      · rename_i hoperand
        cases hnoted : p.operandError with
        | some first =>
            rw [hnoted] at h
            exact .inl h
        | none =>
            rw [hnoted] at h
            cases h
            exact .inr hoperand
      · exact .inl h
    · exact .inl h

theorem ofEval_textOf (setting : Setting) (value : Value) :
    Resumes past noted (Rendering.ofEval (Eval.textOf setting value))
      (Rendering.ofEval (Eval.textOf setting value)) where
  resumes _ := rfl
  stops _ _ h := Eval.textOf_error h
  notes _ _ h := .inl h

theorem writeReference (setting : Setting) (sink : Sink) (pieces : List String) (r : Reference)
    (value : Value) :
    Resumes pieces.reverse noted (Rendering.writeReference setting sink r value)
      (Rendering.writeReference setting (sink.after pieces) r value) := by
  simp only [Rendering.writeReference]
  split
  · exact (ofEval_textOf setting value).bind fun text => write sink pieces text
  · split
    · exact .pure _
    · split
      · exact throw_undefined r.literal
      · exact write sink pieces r.literal

end Rendering.Resumes

section

variable (setting : Setting) (sink : Sink) (pieces : List String) (noted : Option EvalError)

mutual

theorem Template.resumes_renderNodes :
    (nodes : List Node) →
      (renderNodes setting sink nodes).Resumes pieces.reverse noted
        (renderNodes setting (sink.after pieces) nodes)
  | [] => by
      simp only [renderNodes]
      exact .pure _
  | .text content :: rest => by
      simp only [renderNodes]
      exact (Rendering.Resumes.write sink pieces content).bind fun _ => resumes_renderNodes rest
  | .reference r :: rest => by
      simp only [renderNodes]
      exact (Rendering.Resumes.absorbing _).bind fun value =>
        (Rendering.Resumes.writeReference setting sink pieces r value).bind fun _ =>
          resumes_renderNodes rest
  | .set target value :: rest => by
      simp only [renderNodes]
      exact (Rendering.Resumes.absorbing _).bind fun found =>
        (Rendering.Resumes.bindName target found).bind fun _ => resumes_renderNodes rest
  | .conditional branches none :: rest => by
      simp only [renderNodes]
      exact (resumes_renderBranches branches).bind fun _ => resumes_renderNodes rest
  | .conditional branches (some otherwise) :: rest => by
      simp only [renderNodes]
      refine (resumes_renderBranches branches).bind fun taken => ?_
      split
      · exact (resumes_renderNodes otherwise).bind fun _ => resumes_renderNodes rest
      · exact resumes_renderNodes rest

theorem Template.resumes_renderBranches :
    (branches : List Branch) →
      (renderBranches setting sink branches).Resumes pieces.reverse noted
        (renderBranches setting (sink.after pieces) branches)
  | [] => by
      simp only [renderBranches]
      exact .pure _
  | .mk condition body :: rest => by
      simp only [renderBranches]
      refine (Rendering.Resumes.absorbing _).bind fun value => ?_
      split
      · exact (resumes_renderNodes body).bind fun _ => .pure _
      · exact resumes_renderBranches rest

end

end

def reported : Option EvalError → Except EvalError Unit
  | some error => .error error
  | none => .ok ()

section

variable {setting : Setting} {sink : Sink} {nodes : List Node} {scope : Scope} {p : Progress}

theorem Sink.after_nil (sink : Sink) : sink.after [] = sink := by
  simp [Sink.after]

theorem Template.resumes_self (setting : Setting) (sink : Sink) (nodes : List Node) :
    (renderNodes setting sink nodes).Resumes [] none (renderNodes setting sink nodes) := by
  have hresumes := resumes_renderNodes setting sink [] none nodes
  rwa [Sink.after_nil] at hresumes

theorem renderWith_of_error {error : EvalError}
    (h : renderNodes setting sink nodes (.start scope) = (.error error, p)) :
    renderWith setting sink nodes scope = {
        result := .error error
        pieces := p.written.reverse
        context := p.scope.context
        cache := p.scope.cache } ∧
      (renderWith setting sink nodes scope).aborted = true := by
  have hstops := (resumes_self setting sink nodes).stops (.start scope) error
  rw [h] at hstops
  simp only [renderWith, h, Outcome.aborted, hstops rfl, Bool.not_false, and_self]

theorem renderWith_of_ok {value : Unit}
    (h : renderNodes setting sink nodes (.start scope) = (.ok value, p)) :
    renderWith setting sink nodes scope = {
        result := reported p.operandError
        pieces := p.written.reverse
        context := p.scope.context
        cache := p.scope.cache } ∧
      (renderWith setting sink nodes scope).aborted = false := by
  have hnotes := (resumes_self setting sink nodes).notes (.start scope)
  rw [h] at hnotes
  cases hnoted : p.operandError with
  | none => simp only [renderWith, h, hnoted, reported, Outcome.aborted, and_self]
  | some error =>
      have hoperand : error.isOperandError = true := (hnotes error hnoted).resolve_left nofun
      simp only [renderWith, h, hnoted, reported, Outcome.aborted, hoperand, Bool.not_true, and_self]

theorem result_eq_reported_head? (h : (renderWith setting sink nodes scope).aborted = false) :
    (renderWith setting sink nodes scope).result =
      reported (nodeErrors setting sink nodes (.start scope)).head? := by
  have hnotes := notes_nodes setting sink nodes (.start scope)
  cases hrun : renderNodes setting sink nodes (.start scope) with
  | mk result p =>
      cases result with
      | error error =>
          rw [(renderWith_of_error hrun).2] at h
          cases h
      | ok value =>
          rw [hrun] at hnotes
          rw [(renderWith_of_ok hrun).1]
          exact congrArg reported hnotes

variable {front : List Node} (rest : List Node)

theorem renderWith_append_of_error {error : EvalError}
    (h : renderNodes setting sink front (.start scope) = (.error error, p)) :
    renderWith setting sink (front ++ rest) scope = renderWith setting sink front scope := by
  have hwhole : renderNodes setting sink (front ++ rest) (.start scope) = (.error error, p) := by
    rw [renderNodes_append, Rendering.bind_apply, h]
  rw [(renderWith_of_error h).1, (renderWith_of_error hwhole).1]

theorem renderWith_append_of_ok {value : Unit}
    (h : renderNodes setting sink front (.start scope) = (.ok value, p)) :
    let second := renderWith setting (sink.after p.written.reverse) rest p.scope
    renderWith setting sink (front ++ rest) scope = {
      result := if second.aborted then second.result
        else (reported p.operandError).bind fun _ => second.result
      pieces := p.written.reverse ++ second.pieces
      context := second.context
      cache := second.cache } := by
  intro second
  have hresumes := (resumes_renderNodes setting sink p.written.reverse p.operandError rest).resumes
    (.start p.scope)
  rw [List.reverse_reverse, p.start_behind] at hresumes
  have hwhole : renderNodes setting sink (front ++ rest) (.start scope) =
      renderNodes setting sink rest p := by
    rw [renderNodes_append, Rendering.bind_apply, h]
  rw [hresumes] at hwhole
  cases hrest : renderNodes setting (sink.after p.written.reverse) rest (.start p.scope) with
  | mk result q =>
      rw [hrest] at hwhole
      have hpieces : (q.behind p.written p.operandError).written.reverse =
          p.written.reverse ++ q.written.reverse := List.reverse_append
      cases result with
      | error error =>
          obtain ⟨hsecond, haborted⟩ := renderWith_of_error hrest
          rw [(renderWith_of_error hwhole).1, hpieces, if_pos haborted]
          simp only [second, hsecond]
          rfl
      | ok value =>
          obtain ⟨hsecond, haborted⟩ := renderWith_of_ok hrest
          rw [(renderWith_of_ok hwhole).1, hpieces, haborted, if_neg Bool.false_ne_true]
          simp only [second, hsecond]
          cases hnoted : p.operandError <;> rfl

end

/-- Behind nodes that came to their end, with operand errors or without, other nodes render as they
would alone from there. A render that stops replaces the operand errors before it; else the first of
all operand errors is the result. Behind nodes that stopped nothing is rendered. -/
theorem operand_errors_never_cut_short (setting : Setting) (sink : Sink) (front rest : List Node)
    (scope : Scope) :
    let first := renderWith setting sink front scope
    let second := renderWith setting (sink.after first.pieces) rest
      { context := first.context, cache := first.cache }
    let whole := renderWith setting sink (front ++ rest) scope
    (first.aborted = true → whole = first) ∧
    (first.aborted = false → whole = {
      result := if second.aborted then second.result
        else first.result.bind fun _ => second.result
      pieces := first.pieces ++ second.pieces
      context := second.context
      cache := second.cache }) ∧
    (whole.aborted = false →
      whole.result = reported (nodeErrors setting sink (front ++ rest) (.start scope)).head?) := by
  intro first second whole
  refine ⟨?_, ?_, result_eq_reported_head?⟩
  · intro hfirst
    cases hfront : renderNodes setting sink front (.start scope) with
    | mk result p =>
        cases result with
        | error error => exact renderWith_append_of_error rest hfront
        | ok value =>
            rw [(renderWith_of_ok hfront).2] at hfirst
            cases hfirst
  · intro hfirst
    cases hfront : renderNodes setting sink front (.start scope) with
    | mk result p =>
        cases result with
        | error error =>
            rw [(renderWith_of_error hfront).2] at hfirst
            cases hfirst
        | ok value =>
            have hwhole := renderWith_append_of_ok rest hfront
            simp only [second, first, whole, hwhole, (renderWith_of_ok hfront).1]

def mistyped : List Node :=
  [.set "x" (.arithmetic .multiply (.literal (.text "a")) (.literal (.boolean true))),
    .conditional [.mk (.negate (.literal (.boolean true))) [.text "no"]] (some [.text "yes"])]

def undefinedName : List Node :=
  [.text "to ", .reference (.mk false "y" [] "$y")]

def strictly (nodes : List Node) : Outcome :=
  renderWith { registry := .empty, strict := true } .unlimited nodes
    { context := .empty, cache := .empty 1 Nat.one_pos }

theorem operand_errors_never_cut_short_mistyped :
    (strictly mistyped).aborted = false ∧ (strictly undefinedName).aborted = true ∧
    (strictly (mistyped ++ undefinedName)).pieces = ["yes", "to "] ∧
    (strictly (mistyped ++ undefinedName)).result = .error (.undefinedReference "$y") ∧
    strictly (undefinedName ++ mistyped) = strictly undefinedName ∧
    (strictly (mistyped ++ mistyped)).aborted = false ∧
    (strictly (mistyped ++ mistyped)).result =
      .error (.invalidOperand .multiply "String" "Boolean") := by
  have hmistyped : (strictly mistyped).aborted = false := by decide
  have hundefined : (strictly undefinedName).aborted = true := by decide
  have htwice : (strictly (mistyped ++ mistyped)).aborted = false := by decide
  have hlaws := operand_errors_never_cut_short { registry := .empty, strict := true } .unlimited
  obtain ⟨-, hbehind, -⟩ := hlaws mistyped undefinedName _
  obtain ⟨hstopped, -, -⟩ := hlaws undefinedName mistyped _
  obtain ⟨-, -, hfirst⟩ := hlaws mistyped mistyped _
  refine ⟨hmistyped, hundefined, ?_, ?_, hstopped hundefined, htwice, (hfirst htwice).trans rfl⟩
  · exact congrArg Outcome.pieces (hbehind hmistyped)
  · exact congrArg Outcome.result (hbehind hmistyped)

end Stencil
