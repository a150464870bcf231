import Stencil.Proofs.PlainMap
import Stencil.Proofs.Printing
import Stencil.Proofs.SideBySide
import Stencil.Proofs.TreeBounds

namespace Stencil

open Template

namespace Template

open Reader

theorem escaped_self {quote : Char} {content : List Char} (hquote : quote ∉ content)
    (hslash : '\\' ∉ content) : Escaped quote content content := by
  induction content with
  | nil => exact .nil
  | cons c rest ih =>
      rw [List.mem_cons, not_or] at hquote hslash
      exact .plain (Ne.symm hslash.1) (Ne.symm hquote.1) (ih hquote.2 hslash.2)

/-- What a text between double quotes stands for: a map literal if it looks like one, and otherwise
what the template in it comes to. -/
inductive ReadsQuoted (inner : Inner) : List Char → Expr → Prop where
  | map {raw : List Char} {entries : List MapEntry} (hmap : looksLikeMap raw = true)
      (h : lexeme (mapLiteral inner) raw = .done entries []) : ReadsQuoted inner raw (.map entries)
  | template {raw : List Char} {found : List Node} (hmap : looksLikeMap raw = false)
      (h : nodeSequence inner (unescape raw) = .done found []) :
      ReadsQuoted inner raw (interpolation found)

section

variable {inner : Inner} {raw : List Char} (henclosed : Enclosed '"' raw)
include henclosed

theorem ReadsQuoted.doubleQuoted_eq {e : Expr} (h : ReadsQuoted inner raw e) (rest : List Char) :
    doubleQuoted inner ('"' :: raw ++ '"' :: rest) = .done e rest := by
  rw [doubleQuoted, henclosed.quotedBody_eq (by decide)]
  cases h with
  | map hmap h => simp only [hmap, wholly_of_done h, if_true]
  | template hmap h => simp only [hmap, wholly_of_done h, Bool.false_eq_true, if_false]

/-- What stands between double quotes is read as a whole, or nothing else is tried. -/
theorem readsQuoted_or_halts (inner : Inner) (rest : List Char) :
    (∃ e, ReadsQuoted inner raw e) ∨ Halts (doubleQuoted inner) ('"' :: raw ++ '"' :: rest) := by
  unfold Halts
  rw [doubleQuoted, henclosed.quotedBody_eq (by decide)]
  cases hmap : looksLikeMap raw with
  | true =>
      cases hread : wholly (lexeme (mapLiteral inner)) raw with
      | done entries after => exact .inl ⟨_, .map hmap (of_wholly_eq_done hread)⟩
      | miss fault | halt fault =>
          simp only [hmap, hread, if_true]
          exact .inr ⟨_, rfl⟩
  | false =>
      cases hread : wholly (nodeSequence inner) (unescape raw) with
      | done found after => exact .inl ⟨_, .template hmap (of_wholly_eq_done hread)⟩
      | miss fault | halt fault =>
          simp only [hmap, hread, Bool.false_eq_true, if_false]
          exact .inr ⟨_, rfl⟩

end

theorem unary_of_doubleQuoted (inner : Inner) {text rest : List Char} {e : Expr}
    (h : doubleQuoted inner ('"' :: text) = .done e rest) :
    unary inner ('"' :: text) = .done e (skipLayout rest) := by
  refine unary_of_primary inner (.cons rfl _) ⟨_, rfl⟩ ?_
  refine lexeme_of_stops (.cons rfl _) ?_ rfl
  rw [Misses.orElse_eq ⟨_, rfl⟩, Misses.orElse_eq ⟨_, rfl⟩, Misses.orElse_eq ⟨_, rfl⟩]
  exact orElse_of_done h

theorem halts_disjunction_of_doubleQuoted {inner : Inner} {text : List Char}
    (h : Halts (doubleQuoted inner) ('"' :: text)) : Halts (disjunction inner) ('"' :: text) := by
  have hprimary : Halts (primary inner) ('"' :: text) := by
    refine halts_lexeme (Misses.orElse_halts ⟨_, rfl⟩ (Misses.orElse_halts ⟨_, rfl⟩
      (Misses.orElse_halts ⟨_, rfl⟩ ?_)))
    exact h.orElse _
  have hunary : Halts (unary inner) ('"' :: text) :=
    Misses.orElse_halts ⟨_, rfl⟩ (hprimary.orElse _)
  exact ((((hunary.bind _).bind _).bind _).bind _).bind _

theorem ReadsQuoted.disjunction_eq {inner : Inner} {raw : List Char} {e : Expr}
    (h : ReadsQuoted inner raw e) (henclosed : Enclosed '"' raw) :
    disjunction inner ('"' :: raw ++ ['"']) = .done e [] := by
  refine disjunction_of_unary fun rest => ?_
  rw [List.append_assoc]
  exact unary_of_doubleQuoted inner (h.doubleQuoted_eq henclosed rest)

theorem parseExpression_doubleQuoted_iff {raw : List Char} (henclosed : Enclosed '"' raw)
    {e : Expr} :
    parseExpression (String.ofList ('"' :: raw ++ ['"'])) = .ok e ↔
      ReadsQuoted (.within (maxNesting - 1)) raw e := by
  have hfront : Stops Text.isLayout ('"' :: raw ++ ['"']) := .cons rfl _
  have hok {found : Expr} (h : ReadsQuoted (.within (maxNesting - 1)) raw found) :
      parseExpression (String.ofList ('"' :: raw ++ ['"'])) = .ok found :=
    parseExpression_of_expression hfront (h.disjunction_eq henclosed)
  refine ⟨fun hparse => ?_, hok⟩
  obtain ⟨found, h⟩ | hhalts := readsQuoted_or_halts henclosed (.within (maxNesting - 1)) []
  · cases Except.ok.inj (hparse.symm.trans (hok h))
    exact h
  · obtain ⟨error, herror⟩ :=
      parseExpression_of_halts hfront (halts_disjunction_of_doubleQuoted hhalts)
    exact absurd (hparse.symm.trans herror) nofun

def Limits.inside : Limits where
  nesting := maxNesting - 1
  operators := maxOperators

theorem Limits.inside_parse_eq_ok_iff {label source : String} {t : Template} :
    inside.parse label source = .ok t ↔
      ∃ found, nodeSequence (.within (maxNesting - 1)) source.toList = .done found [] ∧
        t = { label, nodes := found } := by
  have hinner : inside.inner = Inner.within (maxNesting - 1) :=
    Inner.withinUpTo_maxOperators _
  simp only [parse, hinner]
  rcases nodeSequence (.within (maxNesting - 1)) source.toList with
    ⟨found, _ | ⟨c, others⟩⟩ | fault | fault <;> simp [eq_comm]

/-- What is a template one level further in is one at the top. -/
theorem parse_of_within {source : String} {found : List Node}
    (h : nodeSequence (Inner.within (maxNesting - 1)) source.toList = .done found [])
    (label : String) : Template.parse label source = .ok ⟨label, found⟩ := by
  have hparse : Limits.inside.parse label source = .ok ⟨label, found⟩ :=
    Limits.inside_parse_eq_ok_iff.mpr ⟨found, h, rfl⟩
  have hnesting : Limits.inside.nesting ≤ Limits.usual.nesting := Nat.sub_le maxNesting 1
  have hoperators : Limits.inside.operators ≤ Limits.usual.operators := Nat.le_refl maxOperators
  rw [← Limits.usual_parse]
  exact Limits.parse_wider hnesting hoperators hparse

theorem quoted_eq_ofList (source : String) :
    "\"" ++ source ++ "\"" = String.ofList ('"' :: source.toList ++ ['"']) := by
  rw [← String.toList_inj]
  simp [String.toList_append]

theorem interpolation_of_parseExpression {source : String} {e : Expr}
    (hquote : '"' ∉ source.toList) (hslash : '\\' ∉ source.toList)
    (hmap : looksLikeMap source.toList = false)
    (hparse : parseExpression ("\"" ++ source ++ "\"") = .ok e) (label : String) :
    ∃ found, Template.parse label source = .ok ⟨label, found⟩ ∧ e = interpolation found := by
  have hescaped := escaped_self hquote hslash
  rw [quoted_eq_ofList, parseExpression_doubleQuoted_iff hescaped.enclosed] at hparse
  cases hparse with
  | map hlooks _ => exact absurd (hlooks.symm.trans hmap) nofun
  | template _ h =>
      rw [hescaped.unescape_eq] at h
      exact ⟨_, parse_of_within h label, rfl⟩

theorem renderNodes_of_plainTexts {found : List Node} {texts : List String}
    (h : plainTexts? found = some texts) (setting : Setting) (p : Progress) :
    renderNodes setting .unlimited found p =
      (.ok (), { p with written := texts.reverse ++ p.written }) := by
  induction found generalizing texts p with
  | nil =>
      cases h
      rfl
  | cons n rest ih =>
      cases n with
      | text content =>
          obtain ⟨others, hothers, rfl⟩ := Option.map_eq_some_iff.mp h
          have hrest := ih hothers { p with written := content :: p.written }
          rw [List.reverse_cons, List.append_assoc]
          exact hrest
      | reference | set | conditional => cases h

theorem ofRendering_eq_renderWith (setting : Setting) (found : List Node) (scope : Scope) :
    let outcome := renderWith setting .unlimited found scope
    Eval.ofRendering (renderNodes setting .unlimited found) scope =
      (outcome.result.map fun _ => outcome.text,
        { context := outcome.context, cache := outcome.cache }) := by
  simp only [Eval.ofRendering, renderWith]
  rcases renderNodes setting .unlimited found (.start scope) with ⟨_ | _, after, written, _ | _⟩ <;>
    rfl

theorem renderWith_of_plainTexts {found : List Node} {texts : List String}
    (h : plainTexts? found = some texts) (setting : Setting) (scope : Scope) :
    renderWith setting .unlimited found scope =
      { result := .ok (), pieces := texts, context := scope.context, cache := scope.cache } := by
  simp only [renderWith, renderNodes_of_plainTexts h, Progress.start, List.append_nil,
    List.reverse_reverse]

theorem eval_interpolation (setting : Setting) (found : List Node) (scope : Scope) :
    let outcome := renderWith setting .unlimited found scope
    (interpolation found).eval setting scope =
      (outcome.result.map fun _ => .text outcome.text,
        { context := outcome.context, cache := outcome.cache }) := by
  cases hplain : plainTexts? found with
  | some texts =>
      simp only [interpolation, hplain, renderWith_of_plainTexts hplain]
      rfl
  | none =>
      simp only [interpolation, hplain, Expr.eval, Eval.bind_apply,
        ofRendering_eq_renderWith setting found scope]
      cases (renderWith setting .unlimited found scope).result <;> rfl

end Template

/-- A text between double quotes that is no map literal evaluates to what its template renders to. -/
theorem quoted_renders_as_template {source : String} (hquote : '"' ∉ source.toList)
    (hslash : '\\' ∉ source.toList)
    (hmap : ¬ (['%', '\x7b'] <+: Text.trim source.toList ∧ ['\x7d'] <:+ Text.trim source.toList))
    {e : Expr} (hparse : parseExpression ("\"" ++ source ++ "\"") = .ok e) (label : String) :
    ∃ t, Template.parse label source = .ok t ∧ ∀ (setting : Setting) (scope : Scope),
      let outcome := renderWith setting .unlimited t.nodes scope
      e.eval setting scope =
        (outcome.result.map fun _ => .text outcome.text,
          { context := outcome.context, cache := outcome.cache }) := by
  have hlooks : looksLikeMap source.toList = false := by
    simpa [looksLikeMap, Bool.eq_false_iff] using hmap
  obtain ⟨found, hfound, rfl⟩ := interpolation_of_parseExpression hquote hslash hlooks hparse label
  exact ⟨_, hfound, fun setting scope => eval_interpolation setting found scope⟩

namespace Template

def greetingSource : String :=
  "Dear $n#set($k = 1 + 2)#if($k == 3), all $k#end"

def greetingNodes : List Node :=
  let named (name : String) : Reference := .mk false name [] ("$" ++ name)
  let integer (value : Int) (h : IntegerKind.int32.Holds value) : Expr :=
    .literal (.number (.integer .int32 value h))
  [.text "Dear ",
    .reference (named "n"),
    .set "k" (.arithmetic .add (integer 1 (by decide)) (integer 2 (by decide))),
    .conditional
      [.mk (.comparison .equal (.reference (named "k")) (integer 3 (by decide)))
        [.text ", all ", .reference (named "k")]]
      none]

end Template

theorem quoted_renders_as_template_greeting :
    '"' ∉ greetingSource.toList ∧ '\\' ∉ greetingSource.toList ∧
      ¬ (['%', '\x7b'] <+: Text.trim greetingSource.toList ∧
        ['\x7d'] <:+ Text.trim greetingSource.toList) ∧
      parseExpression ("\"" ++ greetingSource ++ "\"") = .ok (.interpolated greetingNodes) ∧
      ∃ t, Template.parse "greeting" greetingSource = .ok t ∧
        ∀ (setting : Setting) (scope : Scope),
          let outcome := renderWith setting .unlimited t.nodes scope
          (Expr.interpolated greetingNodes).eval setting scope =
            (outcome.result.map fun _ => .text outcome.text,
              { context := outcome.context, cache := outcome.cache }) := by
  have hquote : '"' ∉ greetingSource.toList := by decide
  have hslash : '\\' ∉ greetingSource.toList := by decide
  have hmap : ¬ (['%', '\x7b'] <+: Text.trim greetingSource.toList ∧
      ['\x7d'] <:+ Text.trim greetingSource.toList) := by decide
  have hparse : parseExpression ("\"" ++ greetingSource ++ "\"") =
      .ok (.interpolated greetingNodes) := rfl
  exact ⟨hquote, hslash, hmap, hparse,
    quoted_renders_as_template hquote hslash hmap hparse "greeting"⟩

end Stencil
