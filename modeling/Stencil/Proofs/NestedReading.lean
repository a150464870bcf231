import Stencil.Proofs.MapGrammar
import Stencil.Proofs.NestedText
import Stencil.Proofs.Verbatim

namespace Stencil.Template

open Reader

structure Inner.TakesNested (inner : Inner) : Prop where
  expression : Reader.TakesNested true inner.expression
  operand : Reader.TakesNested true inner.operand

namespace Inner.TakesNested

variable {inner : Inner} (h : inner.TakesNested)
include h

theorem arguments (inside : Bool) : Reader.TakesNested inside (arguments inner) := by
  refine TakesClosing.bracketed (.required ?_ _) .parentheses inside
  refine .bind ((Reader.TakesNested.char rfl).separated h.expression.lexeme) fun items => ?_
  exact .bind .layout fun _ => .char _

theorem accessor (inside : Bool) : Reader.TakesNested inside (accessor inner) := by
  have hdot : isPlain inside '.' = true := by cases inside <;> decide
  refine (Reader.TakesNested.char hdot).bind fun _ => ?_
  refine (takesNested_identifier inside).bind fun name => ?_
  refine (h.arguments inside).option.bind fun items => ?_
  cases items with
  | none => exact .pure _
  | some items => exact .pure _

theorem referenceBody (inside : Bool) : Reader.TakesNested inside (referenceBody inner) :=
  (takesNested_identifier inside).bind fun _ => (h.accessor inside).many.bind fun _ => .pure _

theorem bracedBody (inside : Bool) : Reader.TakesNested inside (bracedBody inner) :=
  TakesClosing.bracketed (.bind (h.referenceBody true) fun _ => .char _) .braces inside

theorem reference (inside : Bool) : Reader.TakesNested inside (reference inner) := by
  have hdollar : isPlain inside '$' = true := by cases inside <;> decide
  have hmark : isPlain inside '!' = true := by cases inside <;> decide
  refine Reader.TakesNested.bind (.spanned ?_) fun _ => .pure _
  refine (Reader.TakesNested.char hdollar).bind fun _ => ?_
  refine (Reader.TakesNested.char hmark).option.bind fun _ => ?_
  exact ((h.bracedBody inside).orElse (h.referenceBody inside)).bind fun _ => .pure _

end Inner.TakesNested

theorem isPlain_of_toLower {c : Char} {word : String}
    (hword : word.toList.all (isPlain true) = true) (h : c.toLower ∈ word.toList) :
    isPlain true c = true := by
  have hkept : quotesAndBrackets.all (fun d => d.toLower == d) = true := rfl
  cases hlisted : quotesAndBrackets.contains c with
  | false =>
      rw [isPlain, hlisted]
      rfl
  | true =>
      have hsame := List.all_eq_true.mp hkept c (List.contains_iff_mem.mp hlisted)
      rw [eq_of_beq hsame] at h
      exact List.all_eq_true.mp hword c h

theorem append_of_splitQuoteSuffix (text : List Char) :
    ∃ suffix, text = (splitQuoteSuffix text).1 ++ suffix ∧ Nested true suffix := by
  have hends {word : String} (hword : word.toList.all (isPlain true) = true) {n : Nat}
      (h : (text.drop n).map Char.toLower = word.toList) :
      ∃ suffix, text = text.take n ++ suffix ∧ Nested true suffix := by
    refine ⟨text.drop n, (List.take_append_drop n text).symm, .of_forall fun c hc => ?_⟩
    exact isPlain_of_toLower hword (h ▸ List.mem_map_of_mem hc)
  simp only [splitQuoteSuffix]
  split
  · rename_i hsingle
    rw [Bool.and_eq_true, beq_iff_eq] at hsingle
    exact hends rfl hsingle.2
  · split
    · rename_i hdouble
      rw [Bool.and_eq_true, beq_iff_eq] at hdouble
      exact hends rfl hdouble.2
    · exact ⟨[], (List.append_nil text).symm, .nil true⟩

theorem enclosed_of_splitValue {quote : Char} (hquote : quote = '\'' ∨ quote = '"')
    {body rest : List Char}
    (h : splitValue (quote :: body ++ [quote] ++ rest) = .ok (quote :: body ++ [quote], rest)) :
    Enclosed quote body := by
  have hopen : (quote == '\'' || quote == '"') = true := by simpa using hquote
  simp only [List.cons_append, splitValue, hopen, if_true] at h
  split at h
  · rename_i inside after hsplit
    obtain ⟨hvalue, -⟩ := Prod.mk.inj (Except.ok.inj h)
    rw [← List.append_cancel_right (List.cons.inj hvalue).2]
    exact enclosed_of_splitAtQuote hsplit
  · cases h

theorem nested_of_scalarText {inner : Inner} (hreference : TakesNested true (reference inner))
    {text rest : List Char} {found : MapValue}
    (hcut : splitValue (text ++ rest) = .ok (text, rest)) (h : ScalarText inner text found) :
    Nested true text := by
  cases h with
  | @quoted quote body nodes hquote _ =>
      have hbody := enclosed_of_splitValue hquote hcut
      have hquoted := Nested.quoted hquote hbody (.nil true)
      exact hquoted
  | @reference body target htarget =>
      obtain ⟨taken, htaken, hnested⟩ := hreference htarget
      obtain ⟨suffix, happend, hsuffix⟩ := append_of_splitQuoteSuffix ('$' :: body)
      rw [happend, htaken, List.append_nil]
      exact hnested.append hsuffix
  | number hnumeral => exact nested_of_numeral? hnumeral
  | boolean value =>
      cases value with
      | true => exact .of_forall (List.all_eq_true.mp rfl)
      | false => exact .of_forall (List.all_eq_true.mp rfl)

theorem isPlain_of_isBlank {c : Char} (h : Text.isBlank c = true) : isPlain true c = true :=
  isPlain_of h rfl

theorem isPlain_of_keyDelimiter {c : Char} (h : keyDelimiters.contains c = true) :
    isPlain true c = true :=
  isPlain_of h rfl

theorem Punctuation.DelimiterEnd.isPlain {text : List Char} (h : Punctuation.DelimiterEnd text) :
    ∀ c ∈ text, isPlain true c = true := by
  cases h with
  | bare => exact List.forall_mem_nil _
  | delimited hd _ hblanks =>
      exact List.forall_mem_cons.mpr
        ⟨isPlain_of_keyDelimiter hd, fun c hc => isPlain_of_isBlank (hblanks c hc)⟩

theorem Punctuation.DelimiterEnd.nested {text : List Char} (h : Punctuation.DelimiterEnd text) :
    Nested true text :=
  .of_forall h.isPlain

theorem Name.nested (key : Name) : Nested true key.val :=
  .of_forall fun _ hc => isPlain_of_isBareChar (isBareChar_of_mem_name hc) true

theorem nested_entry {first : Bool} {key : Name} {gap before after valueText rest : List Char}
    (hgap : Punctuation.DelimiterGap first gap) (hbefore : Punctuation.DelimiterEnd before)
    (hafter : IsBlankRun after) (hvalue : Nested true valueText) (hrest : Nested true rest) :
    Nested true (gap ++ (key.val ++ (before ++ '=' :: (after ++ (valueText ++ rest))))) := by
  have hgap' : Nested true gap :=
    .of_forall fun c hc => isPlain_of_keyDelimiter (hgap.delimiters c hc)
  have hafter' : Nested true after := .of_forall fun c hc => isPlain_of_isBlank (hafter c hc)
  have hbehind := hafter'.append (hvalue.append hrest)
  exact hgap'.append (key.nested.append (hbefore.nested.append (.plain rfl hbehind)))

theorem nested_of_mapBody {levels : Nat} {first : Bool} {entries : List MapEntry} {text : List Char}
    (h : MapBody .accepted levels first entries text)
    (hinner : ∀ n ≤ levels, (Inner.within n).TakesNested) : Nested true text := by
  induction h with
  | nil htrailing => exact .of_forall fun c hc => isPlain_of (htrailing c hc) rfl
  | scalar hgap hbefore hafter hcut hvalue _ ih =>
      have hreference := (hinner _ (Nat.le_refl _)).reference true
      exact nested_entry hgap hbefore hafter (nested_of_scalarText hreference hcut hvalue)
        (ih hinner)
  | nested hgap hbefore hafter _ _ _ ihvalue ih =>
      have hbody := ihvalue fun n hn => hinner n (Nat.le_succ_of_le hn)
      have hbraced := Nested.bracketed .braces hbody (.nil true)
      exact nested_entry hgap hbefore hafter hbraced (ih hinner)

theorem takesNested_mapLiteral {levels : Nat}
    (hinner : ∀ n ≤ levels, (Inner.within n).TakesNested) :
    TakesNested true (mapLiteral (Inner.within levels)) := by
  intro text rest entries h
  unfold mapLiteral at h
  split at h
  · split at h
    · cases h
    · rename_i body after hsplit
      split at h
      · rename_i found hentries
        cases h
        obtain ⟨_, hrounds⟩ := mapEntries_eq_ok_iff.mp hentries
        have hbody : MapBody .accepted levels true entries body := .of_rounds hrounds nofun
        rw [append_of_splitAtBrace hsplit]
        refine ⟨'%' :: '\x7b' :: body ++ ['\x7d'], by simp, .plain rfl ?_⟩
        exact .bracketed .braces (nested_of_mapBody hbody hinner) (.nil true)
      · cases h
  · cases h

theorem takesNested_singleQuoted : TakesNested true singleQuoted :=
  (takesNested_quotedBody (.inl rfl)).bind fun _ => .pure _

theorem takesNested_doubleQuoted (inner : Inner) : TakesNested true (doubleQuoted inner) := by
  intro text rest value h
  unfold doubleQuoted at h
  split at h
  · rename_i hread
    have htaken := takesNested_quotedBody (.inr rfl) hread
    split at h
    · split at h
      · cases h
        exact htaken
      · cases h
      · cases h
    · split at h
      · cases h
        exact htaken
      · cases h
  · cases h
  · cases h

theorem takesNested_notSign : TakesNested true notSign := by
  refine TakesNested.orElse ?_ (takesNested_identifierAs _)
  exact (TakesNested.char rfl).bind fun _ => .notBefore _

theorem takesNested_multiplicativeOperator : TakesNested true multiplicativeOperator := by
  refine (takesNested_symbolOf _ rfl).orElse ?_
  refine (takesNested_symbolOf _ rfl).orElse ?_
  exact (TakesNested.char rfl).bind fun _ => (TakesNested.notBefore _).bind fun _ => .pure _

theorem takesNested_additiveOperator : TakesNested true additiveOperator :=
  (takesNested_symbolOf _ rfl).orElse (takesNested_symbolOf _ rfl)

theorem takesNested_comparisonOperator : TakesNested true comparisonOperator := by
  refine (takesNested_symbolOf _ rfl).orElse ?_
  refine (takesNested_symbolOf _ rfl).orElse ?_
  refine (takesNested_symbolOf _ rfl).orElse ?_
  refine (takesNested_symbolOf _ rfl).orElse ?_
  refine (takesNested_symbolOf _ rfl).orElse ?_
  exact (takesNested_symbolOf _ rfl).orElse (takesNested_identifierAs _)

theorem takesNested_andOperator : TakesNested true andOperator := by
  refine TakesNested.bind ?_ fun _ => .pure _
  exact (TakesNested.word rfl).orElse (takesNested_identifierAs _)

theorem takesNested_orOperator : TakesNested true orOperator := by
  refine TakesNested.bind ?_ fun _ => .pure _
  exact (TakesNested.word rfl).orElse (takesNested_identifierAs _)

theorem takesNested_chain {ω : Type} {operand : Reader Expr} (hoperand : TakesNested true operand)
    {operator : Reader ω} (hoperator : TakesNested true operator)
    (build : ω → Expr → Expr → Expr) : TakesNested true (chain operand operator build) := by
  refine hoperand.bind fun first text rest value h => ?_
  have hsteps : TakesNested true (do
      let op ← lexeme operator
      let right ← cut operand
      return (op, right)) :=
    hoperator.lexeme.bind fun op => hoperand.cut.bind fun right => .pure (op, right)
  obtain ⟨steps, middle, hmany, hbuilt⟩ := of_bind_eq_done h
  cases of_refusing_eq_done hbuilt
  exact hsteps.many hmany

namespace Inner

namespace TakesNested

variable {inner : Inner} (h : inner.TakesNested)
include h

theorem parenthesized : Reader.TakesNested true (parenthesized inner) := by
  refine TakesClosing.bracketed (.required ?_ _) .parentheses true
  exact .bind h.expression.lexeme fun _ => .char _

theorem listLiteral : Reader.TakesNested true (listLiteral inner) := by
  refine (Reader.TakesNested.char rfl).bind fun _ => (Reader.TakesNested.under _ ?_).cut
  refine ((Reader.TakesNested.char rfl).separated h.expression.lexeme).bind fun _ => ?_
  exact Reader.TakesNested.layout.bind fun _ =>
    (Reader.TakesNested.char rfl).bind fun _ => .pure _

theorem primary (hmap : Reader.TakesNested true (mapLiteral inner)) :
    Reader.TakesNested true (primary inner) := by
  have hkeyword {chars : List Char} (value : Literal)
      (hchars : chars.all (isPlain true) = true) :
      Reader.TakesNested true (keywordLiteral chars value) :=
    (takesNested_keyword hchars).bind fun _ => .pure _
  refine (Reader.TakesNested.orElse h.parenthesized ?_).lexeme
  refine (hmap.bind fun _ => .pure _).orElse (h.listLiteral.orElse ?_)
  refine (takesNested_doubleQuoted inner).orElse (takesNested_singleQuoted.orElse ?_)
  refine takesNested_numberLiteral.orElse ((hkeyword _ rfl).orElse ?_)
  refine (hkeyword _ rfl).orElse ((hkeyword _ rfl).orElse ?_)
  exact (h.reference true).bind fun _ => .pure _

theorem unary (hmap : Reader.TakesNested true (mapLiteral inner)) :
    Reader.TakesNested true (unary inner) := by
  refine Reader.TakesNested.orElse ?_ ((h.primary hmap).orElse ?_)
  · exact takesNested_notSign.lexeme.bind fun _ => h.operand.cut.bind fun _ => .pure _
  · exact (Reader.TakesNested.char rfl).lexeme.bind fun _ =>
      h.operand.cut.bind fun _ => .pure _

theorem around (hmap : Reader.TakesNested true (mapLiteral inner)) :
    (Inner.around inner).TakesNested where
  expression := by
    have hproduct :=
      takesNested_chain (h.unary hmap) takesNested_multiplicativeOperator .arithmetic
    have hsum := takesNested_chain hproduct takesNested_additiveOperator .arithmetic
    have hcomparison := takesNested_chain hsum takesNested_comparisonOperator .comparison
    have hconjunction := takesNested_chain hcomparison takesNested_andOperator .logical
    exact takesNested_chain hconjunction takesNested_orOperator .logical
  operand := h.unary hmap

end TakesNested

/-- A map in an expression has values of all levels further in, so these come before it. -/
theorem takesNested_within (levels : Nat) : (within levels).TakesNested := by
  induction levels using Nat.strong_induction_on with
  | _ levels ih =>
      cases levels with
      | zero => exact { expression := nofun, operand := nofun }
      | succ levels =>
          have hmap : Reader.TakesNested true (mapLiteral (within levels)) :=
            takesNested_mapLiteral fun n hn => ih n (Nat.lt_succ_of_le hn)
          exact (ih levels (Nat.lt_succ_self levels)).around hmap

end Inner

/-- A reference closes its quotes and brackets and has only plain characters outside of them. -/
theorem nested_of_reference {levels : Nat} {text rest : List Char} {r : Reference}
    (h : reference (Inner.within levels) text = .done r rest) :
    text = r.literal.toList ++ rest ∧ Nested false r.literal.toList := by
  have happend := append_of_reference (Inner.stays_within levels) h
  obtain ⟨taken, htaken, hnested⟩ := (Inner.takesNested_within levels).reference false h
  rw [List.append_cancel_right (happend.symm.trans htaken)]
  exact ⟨htaken, hnested⟩

end Stencil.Template
