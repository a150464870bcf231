import Stencil.Proofs.Narrowing
import Stencil.Proofs.Nodes
import Stencil.Proofs.TreePaths
import Stencil.Template.Expression

namespace Stencil.Template

open Reader
open TreePart (Fits)

theorem fits_interpolation {levels size : Nat} {nodes : List Node}
    (h : ∀ node ∈ nodes, Fits (levels + 1) size (.node node)) :
    Fits (levels + 1) (size + 1) (.expr (interpolation nodes)) := by
  rw [interpolation]
  split
  · exact .literal _
  · exact .interpolated h

theorem narrows_numberLiteral {P : Expr → Prop} (h : ∀ n, P (.literal (.number n))) :
    Reader.Narrows P numberLiteral numberLiteral := by
  refine .of_done fun text e rest hread => ?_
  simp only [numberLiteral] at hread
  split at hread
  · split at hread
    · cases hread
      exact h _
    · cases hread
  · cases hread
  · cases hread

/-- The readers of `inner` read no more than those of `other`, and only what fits. -/
structure Inner.Narrows (levels size : Nat) (inner other : Inner) : Prop where
  expression :
    Reader.Narrows (fun e => Fits levels size (.expr e)) inner.expression other.expression
  operand : Reader.Narrows (fun e => Fits levels size (.expr e)) inner.operand other.operand
  block : Reader.Narrows (fun b => Fits (levels + 1) size (.node b)) inner.block other.block
  braced : ∀ text, NarrowsResult (fun entries => Fits levels size (.value (.map entries)))
    (inner.braced text) (other.braced text)

namespace Inner.Narrows

variable {levels size : Nat} {inner other : Inner} (h : inner.Narrows levels size other)
include h

theorem arguments : Reader.Narrows (fun items => ∀ e ∈ items, Fits levels size (.expr e))
    (arguments inner) (arguments other) := by
  refine .after fun _ => .cut (.under _ ?_)
  refine (Narrows.separated _ h.expression.lexeme).bind fun items hitems => ?_
  exact .after fun _ => .after fun _ => .pure hitems

theorem accessor : Reader.Narrows (fun a => Fits (levels + 1) (size + 1) (.accessor a))
    (accessor inner) (accessor other) := by
  refine .after fun _ => .after fun name => ?_
  refine h.arguments.option.bind fun found hfound => ?_
  cases found with
  | none => exact .pure (.property name)
  | some items => exact .pure (.method (hfound items rfl))

theorem referenceBody :
    Reader.Narrows (fun body => ∀ a ∈ body.2, Fits (levels + 1) (size + 1) (.accessor a))
      (referenceBody inner) (referenceBody other) := by
  refine .after fun root => h.accessor.many.bind fun path hpath => ?_
  exact .pure hpath

theorem bracedBody :
    Reader.Narrows (fun body => ∀ a ∈ body.2, Fits (levels + 1) (size + 1) (.accessor a))
      (bracedBody inner) (bracedBody other) := by
  refine .after fun _ => h.referenceBody.bind fun body hbody => ?_
  exact .after fun _ => .pure hbody

theorem reference : Reader.Narrows (fun r => Fits (levels + 1) (size + 2) (.reference r))
    (reference inner) (reference other) := by
  have hmarked : Reader.Narrows
      (fun found => ∀ a ∈ found.2.2, Fits (levels + 1) (size + 1) (.accessor a))
      (do
        char '$'
        let mark ← option (char '!')
        let body ← Template.bracedBody inner <|> Template.referenceBody inner
        return (mark.isSome, body))
      (do
        char '$'
        let mark ← option (char '!')
        let body ← Template.bracedBody other <|> Template.referenceBody other
        return (mark.isSome, body)) := by
    refine .after fun _ => .after fun mark => ?_
    exact (h.bracedBody.orElse h.referenceBody).bind fun body hbody => .pure hbody
  exact hmarked.spanned.bind fun found hfound => .pure (.reference hfound)

theorem setNode : Reader.Narrows (fun node => Fits (levels + 1) (size + 1) (.node node))
    (setNode inner) (setNode other) := by
  refine .after fun _ => .after fun _ opened => ?_
  refine (h.reference.lexeme.under .expectedTarget).cut.bind (fun target _ => ?_) opened
  refine .refusing id (fun _ => ⟨_, rfl⟩) fun _ => ?_
  have hvalue : Reader.Narrows (fun value => Fits levels size (.expr value))
      (do
        char '='
        let value ← inner.expression
        layout
        char ')'
        return value)
      (do
        char '='
        let value ← other.expression
        layout
        char ')'
        return value) := by
    refine .after fun _ => h.expression.bind fun value hvalue => ?_
    exact .after fun _ => .after fun _ => .pure hvalue
  refine (hvalue.under .malformedSet).cut.bind fun value hvalue => ?_
  exact .after fun _ => .pure (.set hvalue)

theorem ifNode : Reader.Narrows (fun node => Fits (levels + 1) size (.node node)) (ifNode inner)
    (ifNode other) :=
  .after fun _ => h.block

theorem node :
    Reader.Narrows (fun found => ∀ node ∈ found, Fits (levels + 1) (size + 3) (.node node))
      (node inner) (node other) := by
  have hsome {node : Node} (hnode : Fits (levels + 1) (size + 3) (.node node)) :
      ∀ found ∈ some node, Fits (levels + 1) (size + 3) (.node found) :=
    fun _ heq => Option.some.inj heq ▸ hnode
  have htext (content : String) := hsome (.text content)
  refine .orElse (.after fun _ => .pure nofun) ?_
  refine .orElse (h.setNode.map fun _ hnode => hsome (hnode.larger (by omega))) ?_
  refine .orElse (h.ifNode.map fun _ hnode => hsome (hnode.larger (by omega))) ?_
  refine .orElse (h.reference.bind fun _ hr => .pure (hsome (.nodeReference hr))) ?_
  refine .orElse (.after fun content => .pure (htext content)) ?_
  exact .after fun content => .pure (htext content)

theorem nodeSequence :
    Reader.Narrows (fun nodes => ∀ node ∈ nodes, Fits (levels + 1) (size + 3) (.node node))
      (nodeSequence inner) (nodeSequence other) := by
  refine h.node.many.bind fun found hfound => .pure fun node hnode => ?_
  rcases mem_mergeTexts hnode with ⟨content, rfl⟩ | hmem
  · exact .text content
  · obtain ⟨_, hfrom, rfl⟩ := List.mem_filterMap.mp hmem
    exact hfound _ hfrom node rfl

theorem condition : Reader.Narrows (fun e => Fits levels size (.expr e)) (condition inner)
    (condition other) := by
  refine .under _ (.after fun _ => .after fun _ => ?_)
  refine h.expression.lexeme.bind fun test htest => ?_
  exact .after fun _ => .after fun _ => .pure htest

theorem branch : Reader.Narrows (fun b => Fits (levels + 1) (size + 4) (.branch b)) (branch inner)
    (branch other) := by
  refine h.condition.bind fun test htest => h.nodeSequence.bind fun body hbody => .pure ?_
  exact .branch (htest.mono (by omega) (by omega)) hbody

theorem conditional : Reader.Narrows (fun node => Fits (levels + 2) (size + 5) (.node node))
    (conditional inner) (conditional other) := by
  refine h.branch.cut.bind fun first hfirst => ?_
  refine (Narrows.after fun _ => h.branch.cut).many.bind fun others hothers => ?_
  refine (Narrows.after fun _ => .after fun _ => h.nodeSequence).option.bind
    fun otherwise hotherwise => ?_
  refine .after fun _ => .after fun _ => .pure ?_
  refine .conditional (List.forall_mem_cons.mpr ⟨hfirst, hothers⟩) ?_
  intro body hbody node hnode
  exact (hotherwise body hbody node hnode).larger (by omega)

theorem mapValue (key : String) (text : List Char) :
    NarrowsResult (fun value => Fits (levels + 1) (size + 5) (.entry (.mk key value)))
      (mapValue inner text) (mapValue other text) := by
  have hplain {value : MapValue} (hmap : value.isMap = false)
      (hvalue : Fits (levels + 1) (size + 4) (.value value)) :
      Fits (levels + 1) (size + 5) (.entry (.mk key value)) := by
    refine .entry ?_
    rw [hmap]
    exact hvalue
  have hreference {r : Reference} (hr : Fits (levels + 1) (size + 2) (.reference r)) :
      Fits (levels + 1) (size + 5) (.entry (.mk key (.reference r (splitQuoteSuffix text).2))) :=
    hplain rfl (.valueReference (hr.larger (by omega)))
  have hnodes := (h.nodeSequence.mono fun _ hnodes => hplain rfl (.valueText hnodes)).wholly
    (unescape (withoutEnds text))
  have htarget := (h.reference.mono fun _ => hreference).wholly (splitQuoteSuffix text).1
  simp only [Template.mapValue]
  generalize wholly (Template.nodeSequence inner) (unescape (withoutEnds text)) = r,
    wholly (Template.nodeSequence other) (unescape (withoutEnds text)) = s at hnodes ⊢
  generalize wholly (Template.reference inner) (splitQuoteSuffix text).1 = r',
    wholly (Template.reference other) (splitQuoteSuffix text).1 = s' at htarget ⊢
  split
  iterate 2
    · cases hnodes with
      | halt _ _ => exact .error _ _
      | miss _ => exact .error _ _
      | done _ hfits => exact .ok hfits
  · exact (h.braced _).map fun entries hentries =>
      .entry (hentries.larger (by omega))
  · cases htarget with
    | halt _ _ => exact .error _ _
    | miss _ => exact .error _ _
    | done _ hfits => exact .ok hfits
  split
  · exact .ok (hplain rfl (.valueBoolean true))
  split
  · exact .ok (hplain rfl (.valueBoolean false))
  split
  · exact .ok (hplain rfl (.valueNumber _))
  · exact .error _ _

theorem mapEntry : Reader.Narrows (fun entry => Fits (levels + 1) (size + 5) (.entry entry))
    (mapEntry inner) (mapEntry other) := by
  intro text
  simp only [Template.mapEntry]
  split
  · exact .miss _
  split
  · exact .halt _ _
  rename_i key after _
  split
  · exact .halt _ _
  split
  · exact .halt _ _
  split
  · exact .halt _ _
  rename_i value rest _
  split
  · exact .halt _ _
  have hvalue := h.mapValue (String.ofList key) value
  generalize Template.mapValue inner value = r, Template.mapValue other value = s at hvalue ⊢
  cases hvalue with
  | error fault _ => exact .halt _ _
  | ok hfits => exact .done rest hfits

theorem mapEntries (body : List Char) :
    NarrowsResult (fun entries => ∀ entry ∈ entries, Fits (levels + 1) (size + 5) (.entry entry))
      (mapEntries inner body) (mapEntries other body) := by
  have hentries := h.mapEntry.many body
  simp only [Template.mapEntries]
  generalize many (Template.mapEntry inner) body = r, many (Template.mapEntry other) body = s
    at hentries ⊢
  cases hentries with
  | halt fault other => exact .error _ _
  | miss fault => exact .error _ _
  | done rest hentries => exact .ok hentries

theorem mapLiteral :
    Reader.Narrows (fun entries => ∀ entry ∈ entries, Fits (levels + 1) (size + 5) (.entry entry))
      (mapLiteral inner) (mapLiteral other) := by
  intro text
  simp only [Template.mapLiteral]
  split
  · split
    · exact .halt _ _
    · rename_i body after _
      have hentries := h.mapEntries body
      generalize Template.mapEntries inner body = r,
        Template.mapEntries other body = s at hentries ⊢
      cases hentries with
      | error fault other => exact .halt _ _
      | ok hentries => exact .done after hentries
  · exact .miss _

theorem bracedEntries (text : List Char) :
    NarrowsResult (fun entries => Fits (levels + 1) (size + 6) (.value (.map entries)))
      (bracedEntries inner text) (bracedEntries other text) := by
  have hentries := h.mapEntries (withoutEnds text)
  simp only [Template.bracedEntries]
  generalize Template.mapEntries inner (withoutEnds text) = r,
    Template.mapEntries other (withoutEnds text) = s at hentries ⊢
  cases hentries with
  | error fault other => exact .error _ _
  | ok hentries => exact .ok (.nestedMap hentries)

theorem parenthesized : Reader.Narrows (fun e => Fits levels size (.expr e)) (parenthesized inner)
    (parenthesized other) := by
  refine .after fun _ => .cut (.under _ ?_)
  exact h.expression.lexeme.bind fun value hvalue => .after fun _ => .pure hvalue

theorem listLiteral : Reader.Narrows (fun e => Fits (levels + 1) (size + 1) (.expr e))
    (listLiteral inner) (listLiteral other) := by
  refine .after fun _ => .cut (.under _ ?_)
  refine (Narrows.separated _ h.expression.lexeme).bind fun items hitems => ?_
  exact .after fun _ => .after fun _ => .pure (.list hitems)

theorem doubleQuoted : Reader.Narrows (fun e => Fits (levels + 1) (size + 6) (.expr e))
    (doubleQuoted inner) (doubleQuoted other) := by
  intro text
  simp only [Template.doubleQuoted]
  split
  · rename_i raw rest _
    split
    · have hentries := h.mapLiteral.lexeme.wholly raw
      generalize wholly (lexeme (Template.mapLiteral inner)) raw = r,
        wholly (lexeme (Template.mapLiteral other)) raw = s at hentries ⊢
      cases hentries with
      | halt fault other => exact .halt _ _
      | miss fault => exact .halt _ _
      | done _ hentries => exact .done rest (.map hentries)
    · have hnodes := h.nodeSequence.wholly (unescape raw)
      generalize wholly (Template.nodeSequence inner) (unescape raw) = r,
        wholly (Template.nodeSequence other) (unescape raw) = s at hnodes ⊢
      cases hnodes with
      | halt fault other => exact .halt _ _
      | miss fault => exact .halt _ _
      | done _ hnodes =>
          exact .done rest (fits_interpolation fun node hnode =>
            (hnodes node hnode).larger (by omega))
  · exact .miss _
  · exact .halt _ _

theorem primary : Reader.Narrows (fun e => Fits (levels + 1) (size + 6) (.expr e)) (primary inner)
    (primary other) := by
  refine .lexeme (.orElse ?_ (.orElse ?_ (.orElse ?_ (.orElse h.doubleQuoted (.orElse ?_ (.orElse ?_
    (.orElse ?_ (.orElse ?_ (.orElse ?_ ?_)))))))))
  · exact h.parenthesized.mono fun _ he => he.mono (by omega) (by omega)
  · exact h.mapLiteral.bind fun entries hentries => .pure (.map hentries)
  · exact h.listLiteral.mono fun _ he => he.larger (by omega)
  · exact .after fun body => .pure (.literal _)
  · exact narrows_numberLiteral fun n => .literal _
  · exact .after fun _ => .pure (.literal _)
  · exact .after fun _ => .pure (.literal _)
  · exact .after fun _ => .pure (.literal _)
  · exact h.reference.bind fun r hr => .pure ((Fits.exprReference hr).larger (by omega))

theorem unary : Reader.Narrows (fun e => Fits (levels + 1) (size + 6) (.expr e)) (unary inner)
    (unary other) := by
  have hoperand := h.operand.cut
  refine .orElse ?_ (.orElse h.primary ?_)
  · refine .after fun _ => hoperand.bind fun operand ho => .pure ?_
    exact ho.not.larger (by omega)
  · refine .after fun _ => hoperand.bind fun operand ho => .pure ?_
    exact ho.negate.larger (by omega)

end Inner.Narrows

end Stencil.Template
