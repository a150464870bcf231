import Stencil.Proofs.Formula
import Stencil.Template.Parse

namespace Stencil.Template

open Reader

/-- An operand cannot go on into `rest` as a longer word or numeral or with an accessor. -/
def EndsOperand (rest : List Char) : Prop :=
  Stops (fun c => isIdentifierChar c || c == '(' || c == '.') rest

namespace EndsOperand

variable {rest : List Char}

theorem stops_identifierChar (h : EndsOperand rest) : Stops isIdentifierChar rest := by
  apply Stops.mono h
  intro c hc
  simp [hc]

theorem stops_digit (h : EndsOperand rest) : Stops Char.isDigit rest := by
  apply h.stops_identifierChar.mono
  intro c hc
  simp [isIdentifierChar, Char.isAlphanum, hc]

end EndsOperand

namespace PlainReference

def EndsProperty (rest : List Char) : Prop :=
  Stops (fun c => isIdentifierChar c || c == '(') rest

theorem endsProperty_flatMap {rest : List Char} (h : EndsOperand rest) (properties : List Name) :
    EndsProperty (properties.flatMap (fun name => '.' :: name.val) ++ rest) := by
  cases properties with
  | nil =>
      apply Stops.mono h
      intro c hc
      exact Bool.or_eq_true_iff.mpr (.inl hc)
  | cons name others => exact Stops.cons rfl _

theorem EndsProperty.stops_identifierChar {rest : List Char} (h : EndsProperty rest) :
    Stops isIdentifierChar rest := by
  apply Stops.mono h
  intro c hc
  simp [hc]

theorem accessor_property (inner : Inner) (name : Name) {rest : List Char}
    (h : EndsProperty rest) :
    accessor inner ('.' :: name.val ++ rest) = .done (.property name.text) rest := by
  have hopen : Misses (arguments inner) rest := (misses_char (h.head?_ne rfl)).bind _
  rw [accessor, List.cons_append, bind_of_done (char_self _ _),
    bind_of_done (identifier_append name.property h.stops_identifierChar),
    bind_of_done hopen.option_eq]
  rfl

theorem rounds_properties (inner : Inner) (properties : List Name) {rest : List Char}
    (h : EndsOperand rest) :
    Rounds (accessor inner) (properties.flatMap (fun name => '.' :: name.val) ++ rest)
      (properties.map fun name => .property name.text) rest := by
  induction properties with
  | nil =>
      exact .stop ((misses_char (h.head?_ne rfl)).bind _)
  | cons name others ih =>
      rw [List.flatMap_cons, List.append_assoc, List.map_cons]
      refine .round (accessor_property inner name (endsProperty_flatMap h others)) ?_ ih
      simp only [List.cons_append, List.length_cons, List.length_append]
      omega

theorem referenceBody_eq (inner : Inner) (r : PlainReference) {rest : List Char}
    (h : EndsOperand rest) :
    referenceBody inner (r.body ++ rest) =
      .done (r.root.text, r.properties.map fun name => .property name.text) rest := by
  have hname := endsProperty_flatMap h r.properties
  rw [referenceBody, body, List.append_assoc,
    bind_of_done (identifier_append r.root.property hname.stops_identifierChar),
    bind_of_done (rounds_properties inner r.properties h).many_eq]
  rfl

theorem body_eq_cons (r : PlainReference) :
    ∃ c rest, r.body = c :: rest ∧ isIdentifierStart c = true := by
  obtain ⟨c, rest, hroot, hc, -⟩ := isIdentifier_iff.mp r.root.property
  exact ⟨c, _, by rw [body, hroot, List.cons_append], hc⟩

theorem head?_shape_append (r : PlainReference) (rest : List Char) :
    (r.shape ++ rest).head? ≠ some '!' := by
  cases hbraced : r.braced with
  | true => simp [shape, hbraced]
  | false =>
      obtain ⟨c, others, hbody, hc⟩ := r.body_eq_cons
      rw [shape, hbraced, if_neg Bool.false_ne_true, hbody]
      intro heq
      cases heq
      exact absurd hc (by decide)

theorem bracedBody_orElse_eq (inner : Inner) (r : PlainReference) {rest : List Char}
    (h : EndsOperand rest) :
    (bracedBody inner <|> referenceBody inner) (r.shape ++ rest) =
      .done (r.root.text, r.properties.map fun name => .property name.text) rest := by
  cases hbraced : r.braced with
  | true =>
      have hclose : EndsOperand ('\x7d' :: rest) := Stops.cons rfl rest
      refine orElse_of_done ?_
      simp only [shape, hbraced, if_true, List.cons_append, List.append_assoc, List.nil_append]
      rw [bracedBody, bind_of_done (char_self _ _),
        bind_of_done (referenceBody_eq inner r hclose), bind_of_done (char_self _ _)]
      rfl
  | false =>
      obtain ⟨c, others, hbody, hc⟩ := r.body_eq_cons
      have hmiss : Misses (bracedBody inner) (r.body ++ rest) := by
        refine (misses_char ?_).bind _
        rw [hbody]
        intro heq
        cases heq
        exact absurd hc (by decide)
      rw [shape, hbraced, if_neg Bool.false_ne_true, hmiss.orElse_eq, referenceBody_eq inner r h]

theorem option_mark_eq (r : PlainReference) (rest : List Char) :
    option (char '!') ((if r.quiet then ['!'] else []) ++ (r.shape ++ rest)) =
      .done (if r.quiet then some () else none) (r.shape ++ rest) := by
  cases r.quiet with
  | true => exact option_of_done (char_self _ _)
  | false => exact (misses_char (r.head?_shape_append rest)).option_eq

theorem reference_eq (inner : Inner) (r : PlainReference) {rest : List Char} (h : EndsOperand rest) :
    Template.reference inner (r.chars ++ rest) = .done r.reference rest := by
  have hspanned : spanned (do
        char '$'
        let mark ← option (char '!')
        let body ← bracedBody inner <|> referenceBody inner
        return (mark.isSome, body)) (r.chars ++ rest) =
      .done (r.chars, r.quiet, r.root.text,
        r.properties.map fun name => .property name.text) rest := by
    refine spanned_of_done ?_
    rw [chars, List.cons_append, List.append_assoc, bind_of_done (char_self _ _),
      bind_of_done (r.option_mark_eq rest), bind_of_done (bracedBody_orElse_eq inner r h),
      pure_apply]
    cases r.quiet <;> rfl
  rw [Template.reference, bind_of_done hspanned]
  rfl

end PlainReference

section

variable (inner : Inner) {text : List Char}

theorem misses_parenthesized (h : text.head? ≠ some '(') : Misses (parenthesized inner) text :=
  (misses_char h).bind _

theorem misses_mapLiteral (h : text.head? ≠ some '%') : Misses (mapLiteral inner) text := by
  cases text with
  | nil => exact ⟨_, rfl⟩
  | cons c rest =>
      have hc : c ≠ '%' := fun heq => h (congrArg some heq)
      have hmissing : mapLiteral inner (c :: rest) = missing .expectedWord (c :: rest) := by
        rw [mapLiteral]
        intro _ heq
        cases heq
        exact hc rfl
      exact misses_of_eq hmissing

theorem misses_listLiteral (h : text.head? ≠ some '[') : Misses (listLiteral inner) text :=
  (misses_char h).bind _

theorem misses_quotedBody {quote : Char} (h : text.head? ≠ some quote) :
    Misses (quotedBody quote) text := by
  cases text with
  | nil => exact ⟨_, rfl⟩
  | cons c rest =>
      have hne : (c == quote) = false := beq_eq_false_iff_ne.mpr fun heq => h (congrArg some heq)
      exact misses_of_eq (if_neg (by simp [hne]))

theorem misses_doubleQuoted (h : text.head? ≠ some '"') : Misses (doubleQuoted inner) text := by
  obtain ⟨fault, h⟩ := misses_quotedBody h
  exact ⟨fault, by simp only [doubleQuoted, h]⟩

theorem misses_singleQuoted (h : text.head? ≠ some '\'') : Misses singleQuoted text :=
  (misses_quotedBody h).bind _

theorem misses_numberLiteral (hdigit : Stops Char.isDigit text) (hsign : text.head? ≠ some '-') :
    Misses numberLiteral text := by
  have hmissing : numeralText text = missing .expectedWord text := by
    rw [numeralText, hdigit.span_eq]
    intro _ heq
    cases heq
    exact hsign rfl
  have hliteral : numberLiteral text = missing .expectedWord text := by
    simp only [numberLiteral, hmissing, missing]
  exact misses_of_eq hliteral

theorem misses_keywordLiteral {chars : List Char} (value : Literal)
    (h : chars.isPrefixOf text = false) : Misses (keywordLiteral chars value) text :=
  ((misses_word h).bind _).bind _

def wordPrimary : Reader Expr :=
  keywordLiteral "true".toList (.boolean true)
    <|> keywordLiteral "false".toList (.boolean false)
    <|> keywordLiteral "null".toList .null
    <|> (do return .reference (← reference inner))

def plainPrimary : Reader Expr :=
  singleQuoted <|> numberLiteral <|> wordPrimary inner

def brackets : List Char :=
  ['(', '%', '[', '"']

theorem primary_of_plain {e : Expr} {rest : List Char} (hfront : Stops Text.isLayout text)
    (hbracket : Stops brackets.contains text) (h : plainPrimary inner text = .done e rest) :
    primary inner text = .done e (skipLayout rest) := by
  refine lexeme_of_stops hfront ?_ rfl
  rw [(misses_parenthesized inner (hbracket.head?_ne rfl)).orElse_eq,
    ((misses_mapLiteral inner (hbracket.head?_ne rfl)).bind _).orElse_eq,
    (misses_listLiteral inner (hbracket.head?_ne rfl)).orElse_eq,
    (misses_doubleQuoted inner (hbracket.head?_ne rfl)).orElse_eq]
  exact h

theorem misses_notSign (hmark : text.head? ≠ some '!') (hword : Misses (wordOperator .not) text) :
    Misses notSign text :=
  ((misses_char hmark).bind _).orElse hword

theorem unary_of_primary {e : Expr} {rest : List Char} (hfront : Stops Text.isLayout text)
    (hnot : Misses notSign text) (h : primary inner text = .done e rest) :
    unary inner text = .done e rest := by
  have hnegation : Misses (negation inner) text := (misses_lexeme_of_stops hfront hnot).bind _
  rw [unary, hnegation.orElse_eq]
  exact orElse_of_done h

end

def opensWord (c : Char) : Bool :=
  isIdentifierStart c || c == '$'

theorem isDigit_of_opensWord {c : Char} (h : opensWord c = true) : c.isDigit = false := by
  rw [Bool.eq_false_iff]
  intro hdigit
  have hstart : isIdentifierStart c = false :=
    isIdentifierStart_of_opensNumeral (by simp [opensNumeral, hdigit])
  have hdollar : c ≠ '$' := by
    intro heq
    cases heq
    exact absurd hdigit (by decide)
  simp [opensWord, hstart, hdollar] at h

def foreignFronts : List Char :=
  brackets ++ ['\'', '!', ' ', '\t', '\n', '\r']

theorem stops_foreignFronts {p : Char → Bool} {c : Char} {text : List Char}
    (htext : text.head? = some c) (hc : p c = true)
    (hforeign : foreignFronts.all (fun d => !p d) = true) :
    Stops foreignFronts.contains text :=
  .of_head?_eq htext (contains_eq_false hc hforeign)

theorem stops_isLayout {text : List Char} (h : Stops foreignFronts.contains text) :
    Stops Text.isLayout text := by
  apply h.mono
  intro c hc
  exact of_isLayout hc rfl

section

variable (inner : Inner) {text rest : List Char}

theorem unary_of_foreignFronts {e : Expr} (hfront : Stops foreignFronts.contains text)
    (hnot : Misses (wordOperator .not) text)
    (h : (numberLiteral <|> wordPrimary inner) text = .done e rest) :
    unary inner text = .done e (skipLayout rest) := by
  have hlayout := stops_isLayout hfront
  have hbracket : Stops brackets.contains text := by
    apply hfront.mono
    intro c hc
    simp [foreignFronts, List.contains_iff_mem.mp hc]
  refine unary_of_primary inner hlayout (misses_notSign (hfront.head?_ne rfl) hnot) ?_
  refine primary_of_plain inner hlayout hbracket ?_
  rw [plainPrimary, (misses_singleQuoted (hfront.head?_ne rfl)).orElse_eq]
  exact h

theorem unary_text {content raw : List Char} (h : Escaped '\'' content raw) :
    unary inner ('\'' :: raw ++ ['\''] ++ rest) =
      .done (.literal (.text (String.ofList content))) (skipLayout rest) := by
  have hquoted : singleQuoted ('\'' :: raw ++ '\'' :: rest) =
      .done (.literal (.text (String.ofList content))) rest := by
    rw [singleQuoted, bind_of_done (h.quotedBody_eq (by decide) rest), h.unescape_eq]
    rfl
  rw [List.append_assoc]
  refine unary_of_primary inner (.cons rfl _) ⟨_, rfl⟩ ?_
  exact primary_of_plain inner (.cons rfl _) (.cons rfl _)
    (orElse_of_done hquoted)

theorem unary_integer (n : IntegerLiteral) (h : EndsOperand rest) :
    unary inner (n.spelling ++ rest) = .done (.literal (.number n.number)) (skipLayout rest) := by
  have hliteral : numberLiteral (n.spelling ++ rest) =
      .done (.literal (.number n.number)) rest := by
    simp only [numberLiteral, numeral?_spelling,
      numeralText_spelling n h.stops_digit (h.head?_ne rfl)]
  obtain ⟨c, others, hs, hc⟩ := spelling_eq_cons n
  have hhead : (n.spelling ++ rest).head? = some c := by
    rw [hs]
    rfl
  refine unary_of_foreignFronts inner (stops_foreignFronts hhead hc rfl) ?_
    (orElse_of_done hliteral)
  exact misses_identifierAs (.of_head?_eq hhead (isIdentifierStart_of_opensNumeral hc))

theorem unary_word {c : Char} {e : Expr} (htext : text.head? = some c) (hc : opensWord c = true)
    (hnot : Misses (wordOperator .not) text) (h : wordPrimary inner text = .done e rest) :
    unary inner text = .done e (skipLayout rest) := by
  have hsign : c ≠ '-' := by
    intro heq
    cases heq
    exact absurd hc (by decide)
  refine unary_of_foreignFronts inner (stops_foreignFronts htext hc rfl) hnot ?_
  rw [(misses_numberLiteral (.of_head?_eq htext (isDigit_of_opensWord hc))
    (by simpa [htext] using hsign)).orElse_eq]
  exact h

theorem keywordLiteral_append (chars : List Char) (value : Literal) (h : EndsOperand rest) :
    keywordLiteral chars value (chars ++ rest) = .done (.literal value) rest := by
  rw [keywordLiteral, bind_of_done (keyword_append chars h.stops_identifierChar)]
  rfl

theorem misses_not_append {chars : List Char} (hname : isIdentifier chars = true)
    (hword : WordOperator.ofWord? (String.ofList chars) = none) (h : EndsOperand rest) :
    Misses (wordOperator .not) (chars ++ rest) := by
  refine misses_identifierAs_append hname h.stops_identifierChar ?_
  simp [hword]

theorem unary_boolean (value : Bool) (h : EndsOperand rest) :
    unary inner ((toString value).toList ++ rest) =
      .done (.literal (.boolean value)) (skipLayout rest) := by
  cases value with
  | true =>
      refine unary_word inner rfl rfl (misses_not_append rfl rfl h) ?_
      exact orElse_of_done (keywordLiteral_append "true".toList _ h)
  | false =>
      refine unary_word inner rfl rfl (misses_not_append rfl rfl h) ?_
      rw [wordPrimary, (misses_keywordLiteral _ rfl).orElse_eq]
      exact orElse_of_done (keywordLiteral_append "false".toList _ h)

theorem unary_null (h : EndsOperand rest) :
    unary inner ("null".toList ++ rest) = .done (.literal .null) (skipLayout rest) := by
  refine unary_word inner rfl rfl (misses_not_append rfl rfl h) ?_
  rw [wordPrimary, (misses_keywordLiteral _ rfl).orElse_eq, (misses_keywordLiteral _ rfl).orElse_eq]
  exact orElse_of_done (keywordLiteral_append "null".toList _ h)

theorem unary_reference (r : PlainReference) (h : EndsOperand rest) :
    unary inner (r.chars ++ rest) = .done (.reference r.reference) (skipLayout rest) := by
  refine unary_word inner rfl rfl (misses_identifierAs (.cons rfl _)) ?_
  rw [wordPrimary, (misses_keywordLiteral _ rfl).orElse_eq,
    (misses_keywordLiteral _ rfl).orElse_eq, (misses_keywordLiteral _ rfl).orElse_eq,
    bind_of_done (r.reference_eq inner h)]
  rfl

theorem lexeme_notSign {word : String} (hword : word ∈ ["!", WordOperator.not.word])
    (hfront : Stops Text.isLayout text) :
    lexeme notSign (word.toList ++ ' ' :: text) = .done () text := by
  have hrest : skipLayout (' ' :: text) = text := hfront.dropWhile_eq
  simp only [List.mem_cons, List.not_mem_nil, or_false] at hword
  rcases hword with rfl | rfl
  · exact lexeme_of_stops (.cons rfl _) rfl hrest
  · have hmark : (WordOperator.not.word.toList ++ ' ' :: text).head? = some 'n' := rfl
    have hsign : Misses (do char '!'; notBefore (· == '=')) (WordOperator.not.word.toList ++
        ' ' :: text) := (misses_char (by rw [hmark]; decide)).bind _
    exact lexeme_of_stops (.cons rfl _)
      (hsign.orElse_eq.trans (wordOperator_word .not (.cons rfl text))) hrest

theorem unary_not {word : String} (hword : word ∈ ["!", WordOperator.not.word]) {e : Expr}
    (hfront : Stops Text.isLayout text) (h : inner.operand text = .done e rest) :
    unary inner (word.toList ++ ' ' :: text) = .done (.not e) rest := by
  refine orElse_of_done ?_
  rw [negation, bind_of_done (lexeme_notSign hword hfront), bind_of_done (cut_of_done h)]
  rfl

theorem unary_negate {e : Expr} (hfront : Stops Text.isLayout text)
    (h : inner.operand text = .done e rest) :
    unary inner ('-' :: ' ' :: text) = .done (.negate e) rest := by
  have hnegation : Misses (negation inner) ('-' :: ' ' :: text) := ⟨_, rfl⟩
  have hprimary : Misses (primary inner) ('-' :: ' ' :: text) := ⟨_, rfl⟩
  have hsign : lexeme (char '-') ('-' :: ' ' :: text) = .done () text :=
    lexeme_of_stops (.cons rfl _) (char_self '-' (' ' :: text)) hfront.dropWhile_eq
  rw [unary, hnegation.orElse_eq, hprimary.orElse_eq, opposite, bind_of_done hsign,
    bind_of_done (cut_of_done h)]
  rfl

theorem unary_parenthesized {e : Expr} (hfront : Stops Text.isLayout text)
    (h : inner.expression text = .done e (')' :: rest)) :
    unary inner ('(' :: text) = .done e (skipLayout rest) := by
  have hinner : lexeme inner.expression text = .done e (')' :: rest) :=
    lexeme_of_stops hfront h rfl
  have hparenthesized : parenthesized inner ('(' :: text) = .done e rest := by
    rw [parenthesized, bind_of_done (char_self '(' text)]
    refine cut_of_done (under_of_done _ ?_)
    rw [bind_of_done hinner, bind_of_done (char_self ')' rest)]
    rfl
  refine unary_of_primary inner (.cons rfl _) ⟨_, rfl⟩ ?_
  exact lexeme_of_stops (.cons rfl _) (orElse_of_done hparenthesized) rfl

end

end Stencil.Template
