import Stencil.Proofs.MapReading
import Stencil.Proofs.Staying

namespace Stencil.Template

open Reader

def quotesAndBrackets : List Char :=
  ['\\', '\'', '"', '\x7b', '\x7d', '(', ')']

/-- Characters that neither quote nor bracket, and outside of brackets do not end a bare value. -/
def isPlain (inside : Bool) (c : Char) : Bool :=
  !quotesAndBrackets.contains c && (inside || !(Text.isBlank c || c == ','))

inductive Brackets : Char → Char → Prop where
  | braces : Brackets '\x7b' '\x7d'
  | parentheses : Brackets '(' ')'

/-- The text closes its quotes and brackets. Quotes, blanks and commas stand in it only if it lies
inside of brackets or has brackets around them. -/
inductive Nested : Bool → List Char → Prop where
  | nil (inside : Bool) : Nested inside []
  | plain {inside : Bool} {c : Char} {text : List Char} (hc : isPlain inside c = true)
      (hrest : Nested inside text) : Nested inside (c :: text)
  | quoted {quote : Char} {body text : List Char} (hquote : quote = '\'' ∨ quote = '"')
      (hbody : Enclosed quote body) (hrest : Nested true text) :
      Nested true (quote :: body ++ quote :: text)
  | bracketed {inside : Bool} {opening closing : Char} {body text : List Char}
      (hbrackets : Brackets opening closing) (hbody : Nested true body)
      (hrest : Nested inside text) : Nested inside (opening :: body ++ closing :: text)

theorem isPlain_of {p : Char → Bool} {c : Char} (hc : p c = true)
    (hlisted : quotesAndBrackets.all (fun d => !p d) = true) :
    isPlain true c = true := by
  rw [isPlain, contains_eq_false hc hlisted]
  rfl

theorem isPlain_of_isBareChar {c : Char} (hc : isBareChar c = true) (inside : Bool) :
    isPlain inside c = true := by
  have hplain : quotesAndBrackets.contains c = false := contains_eq_false hc rfl
  have hcomma : [','].contains c = false := contains_eq_false hc rfl
  simp at hcomma
  rw [isPlain, hplain]
  simp [isBlank_of_isBareChar hc, hcomma]

namespace Nested

variable {inside : Bool} {front back text : List Char}

theorem append (hfront : Nested inside front) (hback : Nested inside back) :
    Nested inside (front ++ back) := by
  induction hfront with
  | nil => exact hback
  | plain hc _ ih => exact .plain hc (ih hback)
  | quoted hquote hbody _ ih =>
      rw [List.append_assoc, List.cons_append]
      exact .quoted hquote hbody (ih hback)
  | bracketed hbrackets hbody _ _ ih =>
      rw [List.append_assoc, List.cons_append]
      exact .bracketed hbrackets hbody (ih hback)

theorem of_forall (h : ∀ c ∈ text, isPlain inside c = true) : Nested inside text := by
  induction text with
  | nil => exact .nil inside
  | cons c rest ih =>
      obtain ⟨hc, hrest⟩ := List.forall_mem_cons.mp h
      exact .plain hc (ih hrest)

theorem indoors (h : Nested inside text) : Nested true text := by
  induction h with
  | nil => exact .nil true
  | plain hc _ ih =>
      refine .plain ?_ ih
      rw [isPlain, Bool.and_eq_true] at hc
      rw [isPlain, hc.1]
      rfl
  | quoted hquote hbody _ ih => exact .quoted hquote hbody ih
  | bracketed hbrackets hbody _ _ ih => exact .bracketed hbrackets hbody ih

theorem passes (h : Nested inside text) : Passes text := by
  induction h with
  | nil => exact .nil
  | plain hc _ ih =>
      refine .cons ?_ ih
      simp [isPlain, quotesAndBrackets] at hc
      simp [isBraceActive, hc]
  | @quoted quote body text hquote hbody _ ih =>
      have hsplit : quote :: body ++ quote :: text = quote :: body ++ [quote] ++ text := by simp
      rw [hsplit]
      exact (Passes.quoted hquote hbody).append ih
  | @bracketed inside opening closing body text hbrackets _ _ ihbody ih =>
      have hsplit : opening :: body ++ closing :: text =
          opening :: body ++ [closing] ++ text := by simp
      rw [hsplit]
      refine Passes.append ?_ ih
      cases hbrackets with
      | braces => exact ihbody.braced
      | parentheses => exact .append (.cons rfl ihbody) (.cons rfl .nil)

end Nested

namespace Reader

variable {α β : Type}

def TakesNested (inside : Bool) (p : Reader α) : Prop :=
  ∀ ⦃text rest : List Char⦄ ⦃value : α⦄, p text = .done value rest →
    ∃ taken, text = taken ++ rest ∧ Nested inside taken

/-- What the reader takes ends with a bracket that closes one in front of it. -/
def TakesClosing (closing : Char) (p : Reader α) : Prop :=
  ∀ ⦃text rest : List Char⦄ ⦃value : α⦄, p text = .done value rest →
    ∃ body, text = body ++ closing :: rest ∧ Nested true body

namespace TakesNested

variable {inside : Bool} {p q : Reader α}

theorem nothing {text : List Char} : ∃ taken, text = taken ++ text ∧ Nested inside taken :=
  ⟨[], rfl, .nil inside⟩

theorem pure (value : α) : TakesNested inside (Pure.pure value : Reader α) := by
  intro text rest found h
  cases h
  exact nothing

theorem bind (hp : TakesNested inside p) {f : α → Reader β}
    (hf : ∀ value, TakesNested inside (f value)) : TakesNested inside (p >>= f) := by
  intro text rest found h
  obtain ⟨first, middle, hfirst, hsecond⟩ := of_bind_eq_done h
  obtain ⟨front, rfl, hfront⟩ := hp hfirst
  obtain ⟨back, rfl, hback⟩ := hf first hsecond
  exact ⟨front ++ back, (List.append_assoc ..).symm, hfront.append hback⟩

theorem orElse (hp : TakesNested inside p) (hq : TakesNested inside q) :
    TakesNested inside (p <|> q) := by
  intro text rest found h
  obtain h | h := of_orElse_eq_done h
  · exact hp h
  · exact hq h

theorem cut (hp : TakesNested inside p) : TakesNested inside (Reader.cut p) :=
  fun _ _ _ h => hp (of_cut_eq_done h)

theorem under (complaint : Complaint) (hp : TakesNested inside p) :
    TakesNested inside (Reader.under complaint p) :=
  fun _ _ _ h => hp (of_under_eq_done h)

theorem option (hp : TakesNested inside p) : TakesNested inside (Reader.option p) := by
  intro text rest found h
  simp only [Reader.option] at h
  split at h
  · rename_i hread
    cases h
    exact hp hread
  · cases h
    exact nothing
  · cases h

theorem manyWithin (hp : TakesNested inside p) (budget : List Char) :
    TakesNested inside (Reader.manyWithin p budget) := by
  induction budget with
  | nil =>
      intro text rest found h
      cases h
      exact nothing
  | cons _ budget ih =>
      intro text rest found h
      obtain ⟨-, rfl⟩ | ⟨first, middle, others, -, hfirst, hothers⟩ := of_manyWithin_eq_done h
      · exact nothing
      · obtain ⟨front, rfl, hfront⟩ := hp hfirst
        obtain ⟨back, rfl, hback⟩ := ih hothers
        exact ⟨front ++ back, (List.append_assoc ..).symm, hfront.append hback⟩

theorem many (hp : TakesNested inside p) : TakesNested inside (Reader.many p) :=
  fun text _ _ h => hp.manyWithin text h

theorem separated {separator : Reader β} (hseparator : TakesNested inside separator)
    (hp : TakesNested inside p) : TakesNested inside (Reader.separated separator p) := by
  refine orElse (hp.bind fun first => ?_) (pure [])
  exact (many (hseparator.bind fun _ => hp)).bind fun others => pure (first :: others)

theorem spanned (hp : TakesNested inside p) : TakesNested inside (Reader.spanned p) := by
  intro text rest found h
  simp only [Reader.spanned] at h
  split at h
  · rename_i hread
    cases h
    exact hp hread
  · cases h
  · cases h

theorem char {c : Char} (hc : isPlain inside c = true) : TakesNested inside (Reader.char c) := by
  intro text rest found h
  rw [of_char_eq_done h]
  exact ⟨[c], rfl, .plain hc (.nil inside)⟩

theorem word {chars : List Char} (hchars : chars.all (isPlain inside) = true) :
    TakesNested inside (Reader.word chars) := by
  intro text rest found h
  simp only [Reader.word] at h
  split at h
  · rename_i hword
    cases h
    obtain ⟨behind, rfl⟩ := List.isPrefixOf_iff_prefix.mp hword
    rw [List.drop_left]
    exact ⟨chars, rfl, .of_forall (List.all_eq_true.mp hchars)⟩
  · cases h

theorem skipWhile {skipped : Char → Bool}
    (h : ∀ c, skipped c = true → isPlain inside c = true) :
    TakesNested inside (Reader.skipWhile skipped) := by
  intro text rest found hread
  cases hread
  refine ⟨text.takeWhile skipped, (List.takeWhile_append_dropWhile ..).symm, .of_forall ?_⟩
  exact fun c hc => h c (List.mem_takeWhile_imp hc)

theorem layout : TakesNested true Reader.layout :=
  skipWhile fun _ hc => isPlain_of hc rfl

theorem notBefore (stopper : Char → Bool) : TakesNested inside (Reader.notBefore stopper) := by
  intro text rest found h
  unfold Reader.notBefore at h
  split at h
  · split at h
    · cases h
    · cases h
      exact nothing
  · cases h
    exact nothing

theorem lexeme (hp : TakesNested true p) : TakesNested true (Reader.lexeme p) :=
  layout.bind fun _ => hp.bind fun _ => layout.bind fun _ => pure _

end TakesNested

namespace TakesClosing

variable {closing : Char} {p : Reader α}

theorem char (f : Unit → α) : TakesClosing closing (do return f (← Reader.char closing)) := by
  intro text rest found h
  obtain ⟨_, middle, hread, hpure⟩ := of_bind_eq_done h
  cases hpure
  exact ⟨[], of_char_eq_done hread, .nil true⟩

theorem bind {q : Reader β} (hq : TakesNested true q) {f : β → Reader α}
    (hf : ∀ value, TakesClosing closing (f value)) : TakesClosing closing (q >>= f) := by
  intro text rest found h
  obtain ⟨first, middle, hfirst, hsecond⟩ := of_bind_eq_done h
  obtain ⟨front, rfl, hfront⟩ := hq hfirst
  obtain ⟨back, rfl, hback⟩ := hf first hsecond
  exact ⟨front ++ back, (List.append_assoc ..).symm, hfront.append hback⟩

theorem required (hp : TakesClosing closing p) (complaint : Complaint) :
    TakesClosing closing (Reader.cut (under complaint p)) :=
  fun _ _ _ h => hp (of_under_eq_done (of_cut_eq_done h))

theorem bracketed (hp : TakesClosing closing p) {opening : Char}
    (hbrackets : Brackets opening closing) (inside : Bool) :
    TakesNested inside (do Reader.char opening; p) := by
  intro text rest found h
  obtain ⟨_, middle, hopening, hread⟩ := of_bind_eq_done h
  obtain ⟨body, rfl, hbody⟩ := hp hread
  refine ⟨opening :: body ++ [closing], ?_, .bracketed hbrackets hbody (.nil inside)⟩
  rw [of_char_eq_done hopening]
  simp

end TakesClosing

end Reader

theorem enclosed_of_splitAtQuote {quote : Char} {text body after : List Char}
    (h : splitAtQuote quote text = some (body, after)) : Enclosed quote body := by
  fun_induction splitAtQuote quote text generalizing body after with
  | case1 => cases h
  | case2 => cases h
  | case3 c rest ih =>
      obtain ⟨⟨inside, behind⟩, hsplit, heq⟩ := Option.map_eq_some_iff.mp h
      cases heq
      exact .escape c (ih hsplit)
  | case4 c rest _ _ hc =>
      cases h
      exact .nil
  | case5 c rest hlone hslash hc ih =>
      obtain ⟨⟨inside, behind⟩, hsplit, heq⟩ := Option.map_eq_some_iff.mp h
      cases heq
      refine .plain ?_ (fun hquote => hc (beq_iff_eq.mpr hquote)) (ih hsplit)
      rintro rfl
      cases rest with
      | nil => exact hlone rfl rfl
      | cons d rest => exact hslash d rest rfl rfl

theorem enclosed_of_quotedBody {quote : Char} {text body rest : List Char}
    (h : quotedBody quote text = .done body rest) :
    text = quote :: body ++ quote :: rest ∧ Enclosed quote body := by
  unfold quotedBody at h
  split at h
  · split at h
    · rename_i hquote
      split at h
      · rename_i hsplit
        cases h
        rw [append_of_splitAtQuote hsplit, eq_of_beq hquote]
        exact ⟨rfl, enclosed_of_splitAtQuote hsplit⟩
      · cases h
    · cases h
  · cases h

theorem takesNested_quotedBody {quote : Char} (hquote : quote = '\'' ∨ quote = '"') :
    TakesNested true (quotedBody quote) := by
  intro text rest body h
  obtain ⟨rfl, hbody⟩ := enclosed_of_quotedBody h
  exact ⟨quote :: body ++ [quote], by simp, .quoted hquote hbody (.nil true)⟩

theorem takesNested_identifier (inside : Bool) : TakesNested inside identifier := by
  intro text rest name h
  unfold identifier at h
  split at h
  · split at h
    · rename_i c others hc
      cases h
      refine ⟨c :: others.takeWhile isIdentifierChar, ?_, .plain ?_ (.of_forall fun d hd => ?_)⟩
      · rw [List.cons_append, List.takeWhile_append_dropWhile]
      · refine isPlain_of_isBareChar ?_ inside
        simp only [isIdentifierStart, Bool.or_eq_true] at hc
        simp only [isBareChar, isIdentifierChar, Char.isAlphanum, Bool.or_eq_true]
        tauto
      · refine isPlain_of_isBareChar ?_ inside
        rw [isBareChar, List.mem_takeWhile_imp hd]
        rfl
    · cases h
  · cases h

theorem takesNested_identifierAs {α : Type} (decode : String → Option α) :
    TakesNested true (identifierAs decode) := by
  intro text rest value h
  unfold identifierAs at h
  split at h
  · rename_i hread
    split at h
    · cases h
      exact takesNested_identifier true hread
    · cases h
  · cases h
  · cases h

theorem takesNested_keyword {chars : List Char} (hchars : chars.all (isPlain true) = true) :
    TakesNested true (keyword chars) :=
  (TakesNested.word hchars).bind fun _ => .notBefore _

theorem takesNested_symbolOf {α : Type} {chars : List Char} (value : α)
    (hchars : chars.all (isPlain true) = true) : TakesNested true (symbolOf chars value) :=
  (TakesNested.word hchars).bind fun _ => .pure value

def isNumeralChar (c : Char) : Bool :=
  c.isDigit || c == '-' || c == '.'

theorem nested_of_isNumeralChar {text : List Char} (h : ∀ c ∈ text, isNumeralChar c = true) :
    Nested true text :=
  .of_forall fun c hc => isPlain_of (h c hc) rfl

theorem append_of_span {p : Char → Bool} {text front rest : List Char}
    (h : text.span p = (front, rest)) : text = front ++ rest ∧ ∀ c ∈ front, p c = true := by
  rw [List.span_eq_takeWhile_dropWhile] at h
  cases h
  exact ⟨(List.takeWhile_append_dropWhile ..).symm, fun _ => List.mem_takeWhile_imp⟩

theorem isNumeralChar_of_isDigit {c : Char} (h : c.isDigit = true) : isNumeralChar c = true := by
  rw [isNumeralChar, h]
  rfl

theorem append_of_numeralText {text numeral rest : List Char}
    (h : numeralText text = .done numeral rest) :
    text = numeral ++ rest ∧ numeral ≠ [] ∧ ∀ c ∈ numeral, isNumeralChar c = true := by
  unfold numeralText at h
  split at h
  rename_i sign unsigned hsign
  obtain ⟨htext, hnumeral⟩ : text = sign ++ unsigned ∧ ∀ c ∈ sign, isNumeralChar c = true := by
    split at hsign
    · cases hsign
      exact ⟨rfl, List.forall_mem_singleton.mpr rfl⟩
    · cases hsign
      exact ⟨rfl, List.forall_mem_nil _⟩
  split at h
  · cases h
  · rename_i integral behind hne hintegral
    obtain ⟨hunsigned, hdigits⟩ := append_of_span hintegral
    have hwhole : ∀ c ∈ sign ++ integral, isNumeralChar c = true :=
      List.forall_mem_append.mpr ⟨hnumeral, fun c hc => isNumeralChar_of_isDigit (hdigits c hc)⟩
    have htaken : text = sign ++ integral ++ behind := by
      rw [htext, hunsigned, List.append_assoc]
    split at h
    · split at h
      · cases h
        exact ⟨htaken, List.append_ne_nil_of_right_ne_nil _ hne, hwhole⟩
      · rename_i fraction after _ hfraction
        cases h
        obtain ⟨hafter, hdigits'⟩ := append_of_span hfraction
        refine ⟨?_, by simp, List.forall_mem_append.mpr ⟨hwhole, List.forall_mem_cons.mpr ⟨rfl, ?_⟩⟩⟩
        · rw [htaken, hafter, List.append_assoc _ ('.' :: fraction), List.cons_append]
        · exact fun c hc => isNumeralChar_of_isDigit (hdigits' c hc)
    · cases h
      exact ⟨htaken, List.append_ne_nil_of_right_ne_nil _ hne, hwhole⟩

theorem takesNested_numeralText : TakesNested true numeralText := by
  intro text rest numeral h
  obtain ⟨htext, -, hnumeral⟩ := append_of_numeralText h
  exact ⟨numeral, htext, nested_of_isNumeralChar hnumeral⟩

theorem takesNested_numberLiteral : TakesNested true numberLiteral := by
  intro text rest value h
  unfold numberLiteral at h
  split at h
  · rename_i hread
    split at h
    · cases h
      exact takesNested_numeralText hread
    · cases h
  · cases h
  · cases h

theorem isNumeralChar_of_digits {digits : List Char}
    (h : (!digits.isEmpty && digits.all Char.isDigit) = true) :
    ∀ c ∈ digits, isNumeralChar c = true := by
  rw [Bool.and_eq_true] at h
  exact fun c hc => isNumeralChar_of_isDigit (List.all_eq_true.mp h.2 c hc)

theorem eq_nil_of_span {text front rest : List Char}
    (h : text.span (· != '.') = (front, rest)) (hpoint : ∀ behind, rest ≠ '.' :: behind) :
    rest = [] := by
  rw [List.span_eq_takeWhile_dropWhile] at h
  cases h
  have hhead := List.head?_dropWhile_not (· != '.') text
  cases hrest : text.dropWhile (· != '.') with
  | nil => rfl
  | cons c behind =>
      rw [hrest] at hhead
      obtain rfl : c = '.' := by simpa using hhead
      exact absurd hrest (hpoint behind)

theorem isNumeralChar_of_unsigned {text unsigned : List Char}
    (hunsigned : (match text with | '-' :: rest => rest | rest => rest) = unsigned)
    (h : ∀ c ∈ unsigned, isNumeralChar c = true) : ∀ c ∈ text, isNumeralChar c = true := by
  split at hunsigned
  · exact List.forall_mem_cons.mpr ⟨rfl, hunsigned ▸ h⟩
  · exact hunsigned ▸ h

theorem nested_of_numeral? {text : List Char} {n : Number} (h : numeral? text = some n) :
    Nested true text := by
  refine nested_of_isNumeralChar ?_
  simp only [numeral?] at h
  split at h
  · rename_i integral fraction hspan
    obtain ⟨hunsigned, -⟩ := append_of_span hspan
    split at h
    · rename_i hparts
      rw [Bool.and_eq_true] at hparts
      refine isNumeralChar_of_unsigned hunsigned (List.forall_mem_append.mpr ⟨?_, ?_⟩)
      · exact isNumeralChar_of_digits hparts.1
      · exact List.forall_mem_cons.mpr ⟨rfl, isNumeralChar_of_digits hparts.2⟩
    · cases h
  · rename_i integral behind hpoint hspan
    obtain ⟨hunsigned, -⟩ := append_of_span hspan
    rw [eq_nil_of_span hspan fun fraction heq => hpoint fraction heq, List.append_nil] at hunsigned
    split at h
    · rename_i hdigits
      exact isNumeralChar_of_unsigned hunsigned (isNumeralChar_of_digits hdigits)
    · cases h

end Stencil.Template
