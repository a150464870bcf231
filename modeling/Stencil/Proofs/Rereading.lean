import Stencil.Proofs.Cutting
import Stencil.Proofs.Limits
import Stencil.Proofs.NestedText
import Stencil.Proofs.Printing
import Stencil.Proofs.Verbatim

namespace Stencil.Template

open Reader

variable {closed : Bool}

theorem of_identifier_eq_done {text rest : List Char} {name : String}
    (h : identifier text = .done name rest) :
    ∃ chars, text = chars ++ rest ∧ isIdentifier chars = true ∧ Stops isIdentifierChar rest ∧
      name = String.ofList chars := by
  unfold identifier at h
  split at h
  · rename_i c others
    split at h
    · rename_i hc
      obtain ⟨rfl, rfl⟩ := Reply.done.inj h
      refine ⟨c :: others.takeWhile isIdentifierChar, ?_, ?_, .dropWhile _ _, rfl⟩
      · rw [List.cons_append, List.takeWhile_append_dropWhile]
      · exact isIdentifier_iff.mpr ⟨c, _, rfl, hc, fun _ => List.mem_takeWhile_imp⟩
    · cases h
  · cases h

theorem takesOpen_identifier : TakesOpen identifier := by
  intro text rest name h
  obtain ⟨chars, htext, hchars, -, -⟩ := of_identifier_eq_done h
  refine ⟨chars, htext, fun c hc => ?_⟩
  exact not_mem_closers rfl (@isBareChar_of_mem_name ⟨chars, hchars⟩ c hc)

theorem settles_identifier : Settles closed identifier where
  stays := stays_identifier
  eq part gone left name _ h := by
    obtain ⟨chars, htext, hchars, hstops, rfl⟩ := of_identifier_eq_done h
    obtain rfl := eq_append_of_cut htext
    exact identifier_append hchars hstops.front

theorem keepsMissing_identifier : KeepsMissing closed identifier := by
  rintro part gone - ⟨fault, h⟩
  refine misses_identifier ?_
  cases part with
  | nil => exact .nil
  | cons c part =>
      refine .cons (Bool.eq_false_iff.mpr fun hc => ?_) part
      simp [identifier, hc] at h

section

variable {α β : Type}

def decoding (p : Reader α) (decode : α → Option β) (expected : Complaint) : Reader β :=
  fun text =>
    match p text with
    | .done read rest =>
        match decode read with
        | some value => .done value rest
        | none => missing expected text
    | .miss fault => .miss fault
    | .halt fault => .halt fault

variable {p : Reader α} {decode : α → Option β} {expected : Complaint}

theorem of_decoding_eq_done {text rest : List Char} {value : β}
    (h : decoding p decode expected text = .done value rest) :
    ∃ read, p text = .done read rest ∧ decode read = some value := by
  unfold decoding at h
  split at h
  · rename_i read rest hread
    split at h
    · rename_i hvalue
      obtain ⟨rfl, rfl⟩ := Reply.done.inj h
      exact ⟨read, hread, hvalue⟩
    · cases h
  · cases h
  · cases h

theorem Reader.Misses.of_decoding {text : List Char} (h : Misses (decoding p decode expected) text) :
    Misses p text ∨ ∃ read rest, p text = .done read rest ∧ decode read = none := by
  obtain ⟨fault, h⟩ := h
  unfold decoding at h
  split at h
  · rename_i read rest hread
    split at h
    · cases h
    · rename_i hnone
      exact .inr ⟨read, rest, hread, hnone⟩
  · rename_i hread
    exact .inl ⟨_, hread⟩
  · cases h

theorem local_decoding (hp : Settles false p) (hopen : TakesOpen p) (hmiss : KeepsMissing true p)
    (hstays : Stays (decoding p decode expected)) : (decoding p decode expected).Local where
  settles := {
    stays := hstays
    eq := by
      intro part gone left value _ h
      obtain ⟨read, hread, hvalue⟩ := of_decoding_eq_done h
      simp only [decoding, hp.eq (.free left) hread, hvalue] }
  keepsMissing := by
    intro part gone hpart h
    obtain h | ⟨read, rest, hread, hnone⟩ := h.of_decoding
    · obtain ⟨fault, h⟩ := hmiss hpart h
      exact ⟨fault, by simp only [decoding, h]⟩
    · obtain ⟨left, -, -, hread⟩ := hopen.exists_done hp hpart hread
      exact ⟨_, by simp only [decoding, hread, hnone]; rfl⟩

end

theorem identifierAs_eq {α : Type} (decode : String → Option α) :
    identifierAs decode = decoding identifier decode .expectedIdentifier := by
  funext text
  unfold identifierAs decoding
  cases identifier text <;> rfl

theorem local_identifierAs {α : Type} (decode : String → Option α) :
    (identifierAs decode).Local := by
  have hstays := stays_identifierAs decode
  rw [identifierAs_eq] at hstays ⊢
  exact local_decoding settles_identifier takesOpen_identifier keepsMissing_identifier hstays

theorem settles_quotedBody {quote : Char} (hquote : quote ≠ '\\') :
    Settles closed (quotedBody quote) where
  stays := stays_quotedBody quote
  eq part gone left body _ h := by
    obtain ⟨htext, hbody⟩ := enclosed_of_quotedBody h
    have hsplit : part ++ gone = quote :: body ++ [quote] ++ (left ++ gone) := by simpa using htext
    rw [eq_append_of_cut hsplit, List.append_assoc]
    exact hbody.quotedBody_eq hquote left

theorem keepsMissing_quotedBody (quote : Char) : KeepsMissing closed (quotedBody quote) := by
  rintro part gone - ⟨fault, h⟩
  refine misses_quotedBody fun hhead => ?_
  obtain ⟨rest, rfl⟩ := List.head?_eq_some_iff.mp hhead
  simp only [List.cons_append, quotedBody, beq_self_eq_true, if_true] at h
  split at h <;> cases h

theorem local_singleQuoted : singleQuoted.Local := by
  have hquoted : (quotedBody '\'').Local := {
    settles := settles_quotedBody (by decide)
    keepsMissing := keepsMissing_quotedBody _ }
  exact hquoted.map _

theorem stops_of_span {p : Char → Bool} {text front rest : List Char}
    (h : text.span p = (front, rest)) : Stops p rest := by
  rw [List.span_eq_takeWhile_dropWhile] at h
  cases h
  exact .dropWhile p text

theorem span_front {p : Char → Bool} {part gone front left : List Char}
    (h : (part ++ gone).span p = (front, left ++ gone)) : part.span p = (front, left) := by
  obtain ⟨htext, hfront⟩ := append_of_span h
  rw [eq_append_of_cut htext]
  exact (stops_of_span h).front.span_append hfront

def fractionBehind (whole : List Char) : Reader (List Char) :=
  fun text =>
    match text with
    | '.' :: after =>
        match after.span Char.isDigit with
        | ([], _) => .done whole text
        | (fraction, rest) => .done (whole ++ '.' :: fraction) rest
    | _ => .done whole text

def unsignedNumeral (sign : List Char) : Reader (List Char) :=
  fun text =>
    match text.span Char.isDigit with
    | ([], _) => missing .expectedWord (sign ++ text)
    | (integral, rest) => fractionBehind (sign ++ integral) rest

theorem numeralText_signed (text : List Char) :
    numeralText ('-' :: text) = unsignedNumeral ['-'] text := rfl

theorem numeralText_unsigned {text : List Char} (h : text.head? ≠ some '-') :
    numeralText text = unsignedNumeral [] text := by
  unfold numeralText
  split
  rename_i sign unsigned hsign
  split at hsign
  · exact absurd rfl h
  · cases hsign
    rfl

theorem fractionBehind_append (whole : List Char) {fraction rest : List Char} (hne : fraction ≠ [])
    (hdigits : ∀ c ∈ fraction, c.isDigit = true) (hrest : Stops Char.isDigit rest) :
    fractionBehind whole ('.' :: (fraction ++ rest)) = .done (whole ++ '.' :: fraction) rest := by
  obtain ⟨c, others, rfl⟩ := List.exists_cons_of_ne_nil hne
  simp only [fractionBehind, hrest.span_append hdigits]

theorem fractionBehind_of_stops (whole : List Char) {text : List Char}
    (h : ∀ after, text = '.' :: after → Stops Char.isDigit after) :
    fractionBehind whole text = .done whole text := by
  unfold fractionBehind
  split
  · rename_i after
    simp only [(h after rfl).span_eq]
  · rfl

theorem of_fractionBehind_eq_done {whole text numeral rest : List Char}
    (h : fractionBehind whole text = .done numeral rest) :
    (∃ fraction, text = '.' :: fraction ++ rest ∧ fraction ≠ [] ∧
      (∀ c ∈ fraction, c.isDigit = true) ∧ Stops Char.isDigit rest ∧
      numeral = whole ++ '.' :: fraction) ∨
    numeral = whole ∧ rest = text ∧ ∀ after, text = '.' :: after → Stops Char.isDigit after := by
  unfold fractionBehind at h
  split at h
  · rename_i after
    split at h
    · rename_i behind hspan
      obtain ⟨rfl, rfl⟩ := Reply.done.inj h
      obtain ⟨rfl, -⟩ := append_of_span hspan
      refine .inr ⟨rfl, rfl, ?_⟩
      rintro _ ⟨⟩
      exact stops_of_span hspan
    · rename_i fraction behind hne hspan
      obtain ⟨rfl, rfl⟩ := Reply.done.inj h
      obtain ⟨rfl, hdigits⟩ := append_of_span hspan
      exact .inl ⟨fraction, rfl, hne, hdigits, stops_of_span hspan, rfl⟩
  · rename_i hpoint
    obtain ⟨rfl, rfl⟩ := Reply.done.inj h
    exact .inr ⟨rfl, rfl, fun after heq => absurd heq (hpoint after)⟩

theorem suffix_of_fractionBehind {whole text numeral rest : List Char}
    (h : fractionBehind whole text = .done numeral rest) : rest <:+ text := by
  obtain ⟨fraction, rfl, -⟩ | ⟨-, rfl, -⟩ := of_fractionBehind_eq_done h
  · exact List.suffix_append _ rest
  · exact List.suffix_refl _

theorem never_fractionBehind (whole : List Char) : Never (fractionBehind whole) := by
  rintro text ⟨fault, h⟩
  unfold fractionBehind at h
  split at h
  · split at h <;> cases h
  · cases h

theorem fractionBehind_front {whole part gone left numeral : List Char}
    (h : fractionBehind whole (part ++ gone) = .done numeral (left ++ gone)) :
    fractionBehind whole part = .done numeral left := by
  obtain ⟨fraction, htext, hne, hdigits, hstops, rfl⟩ | ⟨rfl, hrest, hstops⟩ :=
    of_fractionBehind_eq_done h
  · obtain rfl := eq_append_of_cut htext
    exact fractionBehind_append whole hne hdigits hstops.front
  · obtain rfl := List.append_cancel_right hrest
    refine fractionBehind_of_stops _ ?_
    rintro after rfl
    exact (hstops (after ++ gone) rfl).front

theorem unsignedNumeral_front {sign part gone left numeral : List Char}
    (h : unsignedNumeral sign (part ++ gone) = .done numeral (left ++ gone)) :
    unsignedNumeral sign part = .done numeral left := by
  unfold unsignedNumeral at h
  split at h
  · cases h
  · rename_i integral rest hne hspan
    obtain ⟨front, rfl⟩ := suffix_of_fractionBehind h
    rw [← List.append_assoc] at h hspan
    simp only [unsignedNumeral, span_front hspan]
    exact fractionBehind_front h

theorem misses_unsignedNumeral_iff {sign text : List Char} :
    Misses (unsignedNumeral sign) text ↔ Stops Char.isDigit text := by
  constructor
  · rintro ⟨fault, h⟩
    unfold unsignedNumeral at h
    split at h
    · rename_i hspan
      obtain ⟨rfl, -⟩ := append_of_span hspan
      exact stops_of_span hspan
    · exact absurd ⟨fault, h⟩ (never_fractionBehind _ _)
  · intro h
    exact ⟨_, by simp only [unsignedNumeral, h.span_eq]; rfl⟩

/-- Whether the sign is read depends on the first character only. -/
theorem exists_numeralText_eq (c : Char) :
    ∃ sign, ∃ unsigned : List Char → List Char,
      (∀ text, numeralText (c :: text) = unsignedNumeral sign (unsigned text)) ∧
      ∀ part gone, unsigned (part ++ gone) = unsigned part ++ gone := by
  by_cases hsign : c = '-'
  · subst hsign
    exact ⟨['-'], id, numeralText_signed, fun _ _ => rfl⟩
  · refine ⟨[], (c :: ·), fun text => numeralText_unsigned fun heq => ?_, fun _ _ => rfl⟩
    exact hsign (Option.some.inj heq)

theorem settles_numeralText : Settles closed numeralText where
  stays := stays_numeralText
  eq part gone left numeral _ h := by
    cases part with
    | nil =>
        obtain ⟨htext, hne, -⟩ := append_of_numeralText h
        exact absurd (List.append_eq_nil_iff.mp (eq_append_of_cut htext).symm).1 hne
    | cons c part =>
        obtain ⟨sign, unsigned, hread, happend⟩ := exists_numeralText_eq c
        rw [List.cons_append, hread, happend] at h
        rw [hread]
        exact unsignedNumeral_front h

theorem keepsMissing_numeralText : KeepsMissing closed numeralText := by
  rintro part gone - ⟨fault, h⟩
  cases part with
  | nil => exact ⟨_, rfl⟩
  | cons c part =>
      obtain ⟨sign, unsigned, hread, happend⟩ := exists_numeralText_eq c
      rw [List.cons_append, hread, happend] at h
      rw [Misses, hread]
      exact misses_unsignedNumeral_iff.mpr (misses_unsignedNumeral_iff.mp ⟨fault, h⟩).front

theorem takesOpen_numeralText : TakesOpen numeralText := by
  intro text rest numeral h
  obtain ⟨htext, -, hnumeral⟩ := append_of_numeralText h
  exact ⟨numeral, htext, fun c hc => not_mem_closers rfl (hnumeral c hc)⟩

theorem numberLiteral_eq :
    numberLiteral = decoding numeralText
      (fun numeral => (numeral? numeral).map fun n => Expr.literal (.number n)) .expectedWord := by
  funext text
  unfold numberLiteral decoding
  cases numeralText text with
  | done numeral rest => cases hn : numeral? numeral <;> simp only [hn, Option.map]
  | miss fault => rfl
  | halt fault => rfl

theorem local_numberLiteral : numberLiteral.Local := by
  have hstays := stays_numberLiteral
  rw [numberLiteral_eq] at hstays ⊢
  exact local_decoding settles_numeralText takesOpen_numeralText keepsMissing_numeralText hstays

theorem local_symbolOf {α : Type} (chars : List Char) (value : α) : (symbolOf chars value).Local :=
  (Local.word chars).map fun _ => value

theorem local_keywordLiteral {chars : List Char} (hchars : chars.all isIdentifierChar = true)
    (value : Literal) : (keywordLiteral chars value).Local := by
  have hopen : TakesOpen (word chars) := .word fun c hc =>
    not_mem_closers rfl (List.all_eq_true.mp hchars c hc)
  exact ((Local.word chars).bind (.word chars) hopen fun _ => .notBefore _).map
    fun _ => Expr.literal value

theorem local_notSign : notSign.Local :=
  ((Local.char '!').bind (.char '!') (.char (by decide)) fun _ => .notBefore _).orElse
    (local_identifierAs _)

theorem local_tier (level : Nat) : (tier level).reader.Local := by
  rcases level with _ | _ | _ | _ | level
  · exact ((Local.word _).orElse (local_identifierAs _)).map fun _ => LogicalOperator.or
  · exact ((Local.word _).orElse (local_identifierAs _)).map fun _ => LogicalOperator.and
  · refine (local_symbolOf _ _).orElse ((local_symbolOf _ _).orElse ?_)
    refine (local_symbolOf _ _).orElse ((local_symbolOf _ _).orElse ?_)
    exact (local_symbolOf _ _).orElse ((local_symbolOf _ _).orElse (local_identifierAs _))
  · exact (local_symbolOf _ _).orElse (local_symbolOf _ _)
  · refine (local_symbolOf _ _).orElse ((local_symbolOf _ _).orElse ?_)
    exact (Local.char '%').bind (.char '%') (.char (by decide)) fun _ =>
      (Local.notBefore _).map fun _ => ArithmeticOperator.modulo

theorem splitAtBrace_eq_of_append {depth : Nat} {quote : Option Char} {text body after : List Char}
    (h : splitAtBrace depth quote text = some (body, after)) (other : List Char) :
    splitAtBrace depth quote (body ++ '\x7d' :: other) = some (body, other) := by
  fun_induction splitAtBrace depth quote text generalizing body after with
  | case1 => cases h
  | case2 => cases h
  | case3 depth quote c rest ih =>
      obtain ⟨⟨inside, behind⟩, hsplit, heq⟩ := Option.map_eq_some_iff.mp h
      cases heq
      simp [splitAtBrace, ih hsplit]
  | case7 c rest _ _ _ _ hc =>
      cases h
      simp [splitAtBrace]
  | case4 depth c rest hlone hslash | case5 depth c rest hlone hslash
  | case6 depth c rest hlone hslash | case8 c rest hlone hslash _ _ _ _ depth
  | case9 depth c rest hlone hslash =>
      have hc := ne_backslash hlone hslash
      obtain ⟨⟨inside, behind⟩, hsplit, heq⟩ := Option.map_eq_some_iff.mp h
      cases heq
      -- the equations of the scan distinguish the depths, which it does for a closing brace only
      cases depth <;> simp_all [splitAtBrace]

theorem settles_mapLiteral {inner : Inner} (h : inner.Stays) :
    Settles closed (mapLiteral inner) where
  stays := h.mapLiteral
  eq part gone left entries _ hread := by
    generalize htext : part ++ gone = text at hread
    unfold mapLiteral at hread
    split at hread
    · rename_i rest
      split at hread
      · cases hread
      · rename_i body after hsplit
        split at hread
        · rename_i found hfound
          obtain ⟨rfl, rfl⟩ := Reply.done.inj hread
          have hpart : part ++ gone = '%' :: '\x7b' :: body ++ ['\x7d'] ++ (left ++ gone) := by
            simp [htext, append_of_splitAtBrace hsplit]
          rw [eq_append_of_cut hpart]
          simp [mapLiteral, splitAtBrace_eq_of_append hsplit left, hfound]
        · cases hread
    · cases hread

theorem keepsMissing_mapLiteral (inner : Inner) : KeepsMissing closed (mapLiteral inner) := by
  rintro part gone - ⟨fault, h⟩
  have hopen : ∀ rest, part ≠ '%' :: '\x7b' :: rest := by
    rintro rest rfl
    simp only [List.cons_append, mapLiteral] at h
    split at h
    · cases h
    · split at h <;> cases h
  have hmissing : mapLiteral inner part = missing .expectedWord part := by
    rw [mapLiteral]
    exact hopen
  exact misses_of_eq hmissing

theorem settles_doubleQuoted {inner : Inner} (h : inner.Stays) :
    Settles closed (doubleQuoted inner) where
  stays := h.doubleQuoted
  eq part gone left e hleft hread := by
    have hquoted {raw : List Char}
        (hraw : quotedBody '"' (part ++ gone) = .done raw (left ++ gone)) :
        quotedBody '"' part = .done raw left :=
      (settles_quotedBody (by decide)).eq hleft hraw
    unfold doubleQuoted at hread
    split at hread
    · rename_i raw rest hraw
      split at hread
      · rename_i hlooks
        split at hread
        · rename_i hentries
          obtain ⟨rfl, rfl⟩ := Reply.done.inj hread
          simp only [doubleQuoted, hquoted hraw, hlooks, if_true, hentries]
        · cases hread
        · cases hread
      · rename_i hlooks
        split at hread
        · rename_i hnodes
          obtain ⟨rfl, rfl⟩ := Reply.done.inj hread
          simp only [doubleQuoted, hquoted hraw, hlooks, hnodes]
          rfl
        · cases hread
    · cases hread
    · cases hread

theorem keepsMissing_doubleQuoted (inner : Inner) : KeepsMissing closed (doubleQuoted inner) := by
  rintro part gone hpart ⟨fault, h⟩
  unfold doubleQuoted at h
  split at h
  · split at h
    · split at h <;> cases h
    · split at h <;> cases h
  · rename_i hread
    obtain ⟨fault, hmiss⟩ := keepsMissing_quotedBody '"' hpart ⟨_, hread⟩
    exact ⟨fault, by simp only [doubleQuoted, hmiss]⟩
  · cases h

theorem of_chain_eq_done {ω : Type} {operand : Reader Expr} {operator : Reader ω}
    {build : ω → Expr → Expr → Expr} {text rest : List Char} {e : Expr}
    (h : chain operand operator build text = .done e rest) :
    ∃ first middle steps, operand text = .done first middle ∧
      many (chainStep operand operator) middle = .done steps rest ∧
      steps.length ≤ maxOperators ∧ e = assemble build first steps := by
  obtain ⟨first, middle, hfirst, hbehind⟩ := of_bind_eq_done h
  obtain ⟨steps, behind, hsteps, hbuilt⟩ := of_bind_eq_done hbehind
  by_cases hlength : maxOperators < steps.length
  · exact nomatch (congrFun (if_pos hlength) behind).symm.trans hbuilt
  · obtain ⟨rfl, rfl⟩ := Reply.done.inj ((congrFun (if_neg hlength) behind).symm.trans hbuilt)
    exact ⟨first, middle, steps, hfirst, hsteps, Nat.le_of_not_lt hlength, rfl⟩

theorem advances_word (c : Char) (chars : List Char) : Advances (word (c :: chars)) := by
  intro text rest _ h
  rw [of_word_eq_done h, List.length_append, List.length_cons]
  omega

theorem advances_identifierAs {α : Type} (decode : String → Option α) :
    Advances (identifierAs decode) := by
  intro text rest value h
  rw [identifierAs_eq] at h
  obtain ⟨word, hread, -⟩ := of_decoding_eq_done h
  obtain ⟨chars, rfl, hchars, -, -⟩ := of_identifier_eq_done hread
  obtain ⟨c, others, rfl, -, -⟩ := isIdentifier_iff.mp hchars
  simp only [List.length_append, List.length_cons]
  omega

theorem advances_symbolOf {α : Type} (c : Char) (chars : List Char) (value : α) :
    Advances (symbolOf (c :: chars) value) :=
  (advances_word c chars).bind fun _ => .pure value

theorem advances_lexeme {α : Type} {p : Reader α} (hp : Advances p) : Advances (lexeme p) := by
  intro text rest value h
  obtain ⟨after, hread, rfl⟩ := of_lexeme_eq_done h
  have hlt := hp hread
  have hfront := length_skipLayout_le text
  have hback := length_skipLayout_le after
  omega

theorem advances_tier (level : Nat) : Advances (tier level).reader := by
  rcases level with _ | _ | _ | _ | level
  · exact ((advances_word _ _).orElse (advances_identifierAs _)).bind fun _ => .pure _
  · exact ((advances_word _ _).orElse (advances_identifierAs _)).bind fun _ => .pure _
  · refine (advances_symbolOf _ _ _).orElse ((advances_symbolOf _ _ _).orElse ?_)
    refine (advances_symbolOf _ _ _).orElse ((advances_symbolOf _ _ _).orElse ?_)
    refine (advances_symbolOf _ _ _).orElse ((advances_symbolOf _ _ _).orElse ?_)
    exact advances_identifierAs _
  · exact (advances_symbolOf _ _ _).orElse (advances_symbolOf _ _ _)
  · refine (advances_symbolOf _ _ _).orElse ((advances_symbolOf _ _ _).orElse ?_)
    exact (advances_char '%').bind fun _ => (Stays.notBefore _).bind fun _ => .pure _

theorem settles_chain {operand : Reader Expr} (hoperand : Settles true operand) (level : Nat)
    (build : (tier level).Operator → Expr → Expr → Expr) :
    Settles true (chain operand (tier level).reader build) where
  stays := stays_chain hoperand.stays (local_tier level).settles.stays build
  eq part gone left e hleft h := by
    obtain ⟨first, middle, steps, hfirst, hsteps, hlength, rfl⟩ := of_chain_eq_done h
    have hoperator := (local_tier level).lexeme
    have hstep : Settles true (chainStep operand (tier level).reader) :=
      hoperator.settles.bind fun op => hoperand.cut.bind fun right => .pure (op, right)
    have hadvances : Advances (chainStep operand (tier level).reader) :=
      (advances_lexeme (advances_tier level)).bind fun op =>
        hoperand.stays.cut.bind fun right => .pure (op, right)
    have hnil : Misses (chainStep operand (tier level).reader) [] :=
      (misses_lexeme (misses_tier_nil level)).bind _
    have hmiss : KeepsMissing true (chainStep operand (tier level).reader) :=
      hoperator.keepsMissing.bind_never fun op => (Never.cut operand).bind fun _ => .pure _
    have hrounds := hadvances.rounds_of_many hnil hsteps
    obtain ⟨front, rfl⟩ := hrounds.suffix hstep.stays
    rw [← List.append_assoc] at hfirst hrounds
    have hsettled := hstep.rounds hrounds rfl rfl hleft (hmiss hleft hrounds.misses)
    exact chain_of_rounds build (hoperand.eq (hleft.append front) hfirst) hsettled hlength

def behindPoint (inner : Inner) : Reader Accessor := do
  let name ← identifier
  match ← option (arguments inner) with
  | some items => return .method name items
  | none => return .property name

section

variable (inner : Inner)

theorem keepsMissing_arguments : KeepsMissing closed (arguments inner) :=
  (KeepsMissing.char '(').bind_never fun _ => .cut _

theorem keepsMissing_accessor : KeepsMissing closed (accessor inner) := by
  have hbehind : KeepsMissing false (behindPoint inner) := by
    refine keepsMissing_identifier.bind_never fun name => (Never.option _).bind fun found => ?_
    cases found <;> exact .pure _
  exact (KeepsMissing.after_char '.' hbehind).bounded

theorem keepsMissing_parenthesized : KeepsMissing closed (parenthesized inner) :=
  (KeepsMissing.char '(').bind_never fun _ => .cut _

theorem keepsMissing_listLiteral : KeepsMissing closed (listLiteral inner) :=
  (KeepsMissing.char '[').bind_never fun _ => .cut _

theorem keepsMissing_negation : KeepsMissing true (negation inner) :=
  local_notSign.lexeme.keepsMissing.bind_never fun _ => (Never.cut _).bind fun _ => .pure _

/-- In front of a minus sign only a numeral could have been read, and it is still missed. -/
theorem misses_primary_front {part gone after : List Char} (hpart : Bounded true part)
    (hsign : skipLayout (part ++ gone) = '-' :: after) (h : Misses (primary inner) (part ++ gone)) :
    Misses (primary inner) part := by
  obtain ⟨hskip, hleft⟩ := skipLayout_append hpart gone
  have hmiss := h.of_lexeme
  rw [hskip] at hsign hmiss
  obtain ⟨c, others, hothers⟩ := List.exists_cons_of_ne_nil hleft.ne_nil
  rw [hothers] at hsign hleft hmiss
  obtain ⟨rfl, -⟩ := List.cons.inj hsign
  obtain ⟨-, hmiss⟩ := hmiss.of_orElse
  obtain ⟨-, hmiss⟩ := hmiss.of_orElse
  obtain ⟨-, hmiss⟩ := hmiss.of_orElse
  obtain ⟨-, hmiss⟩ := hmiss.of_orElse
  obtain ⟨-, hmiss⟩ := hmiss.of_orElse
  have hnumber := local_numberLiteral.keepsMissing hleft hmiss.of_orElse.1
  refine misses_lexeme ?_
  rw [hothers]
  have hother {d : Char} (hd : d ≠ '-') : ('-' :: others).head? ≠ some d := fun heq =>
    hd (Option.some.inj heq).symm
  refine (misses_parenthesized inner (hother (by decide))).orElse ?_
  refine ((misses_mapLiteral inner (hother (by decide))).bind _).orElse ?_
  refine (misses_listLiteral inner (hother (by decide))).orElse ?_
  refine (misses_doubleQuoted inner (hother (by decide))).orElse ?_
  refine (misses_singleQuoted (hother (by decide))).orElse (hnumber.orElse ?_)
  refine (misses_keywordLiteral _ rfl).orElse ((misses_keywordLiteral _ rfl).orElse ?_)
  refine (misses_keywordLiteral _ rfl).orElse ?_
  exact (misses_reference inner (hother (by decide))).bind _

end

/-- What the readers one nesting level further in read is settled behind a closing bracket. -/
structure Inner.Settles (inner : Inner) : Prop where
  stays : inner.Stays
  expression : Reader.Settles true inner.expression
  operand : Reader.Settles true inner.operand
  closer : ∀ ⦃c : Char⦄, c ∈ closers → ∀ part gone : List Char,
    Misses inner.expression (c :: (part ++ gone)) → Misses inner.expression (c :: part)

namespace Inner.Settles

variable {inner : Inner} (h : inner.Settles)
include h

theorem arguments : Reader.Settles closed (arguments inner) := by
  refine (Settles.char '(').bind fun _ => (Settles.under _ ?_).cut
  exact h.expression.items (by decide) (h.closer (by decide)) id

theorem behindPoint : Reader.Settles closed (behindPoint inner) := by
  refine settles_identifier.bind fun name => ?_
  refine (h.arguments.option (keepsMissing_arguments inner)).bind fun found => ?_
  cases found <;> exact .pure _

theorem accessor : Reader.Settles closed (accessor inner) :=
  (Settles.char '.').bind fun _ => h.behindPoint

theorem referenceBody : Reader.Settles closed (referenceBody inner) := by
  refine settles_identifier.bind fun root => ?_
  have hadvances : Advances (Template.accessor inner) :=
    (advances_char '.').bind fun _ => (h.behindPoint : Reader.Settles false _).stays
  exact (h.accessor.many hadvances ⟨_, rfl⟩ (keepsMissing_accessor inner)).bind fun path =>
    .pure (root, path)

theorem bracedBody : Reader.Settles closed (bracedBody inner) :=
  (Settles.char '\x7b').bind fun _ => h.referenceBody.bind fun body =>
    (Settles.char '\x7d').bind fun _ => .pure body

/-- A body without braces begins with a letter, where one in braces is missed at once. -/
theorem markedBody : Reader.Settles closed (markedBody inner) := by
  refine ((Settles.char '!').option (.char '!')).bind fun mark => ?_
  refine Settles.bind ?_ fun body => .pure (mark.isSome, body)
  refine h.bracedBody.orElse_of h.referenceBody fun part gone left body _ hbody _ => ?_
  obtain ⟨root, middle, hroot, -⟩ := of_bind_eq_done hbody
  obtain ⟨chars, htext, hchars, -, -⟩ := of_identifier_eq_done hroot
  obtain ⟨c, others, rfl, hc, -⟩ := isIdentifier_iff.mp hchars
  have hbrace : (part ++ gone).head? ≠ some '\x7b' := by
    rw [htext]
    intro heq
    cases heq
    exact absurd hc (by decide)
  exact (misses_char (head?_ne_of_append hbrace)).bind _

theorem reference : Reader.Settles closed (reference inner) :=
  ((Settles.char '$').bind fun _ => h.markedBody).spanned.bind fun _ => .pure _

theorem parenthesized : Reader.Settles closed (parenthesized inner) := by
  refine (Settles.char '(').bind fun _ => (Settles.under _ ?_).cut
  exact h.expression.lexeme.before_closer (by decide) id

theorem listLiteral : Reader.Settles closed (listLiteral inner) := by
  refine (Settles.char '[').bind fun _ => (Settles.under _ ?_).cut
  exact h.expression.items (by decide) (h.closer (by decide)) Expr.list

theorem primary : Reader.Settles true (primary inner) := by
  have hkeyword {chars : List Char} (hchars : chars.all isIdentifierChar = true) (value : Literal)
      {q : Reader Expr} (hq : Reader.Settles true q) :
      Reader.Settles true (keywordLiteral chars value <|> q) :=
    let hlocal := local_keywordLiteral hchars value
    hlocal.settles.orElse hlocal.keepsMissing hq
  refine (h.parenthesized.orElse (keepsMissing_parenthesized inner) ?_).lexeme
  refine ((settles_mapLiteral h.stays).map Expr.map).orElse
    ((keepsMissing_mapLiteral inner).bind_never fun _ => .pure _) ?_
  refine h.listLiteral.orElse (keepsMissing_listLiteral inner) ?_
  refine (settles_doubleQuoted h.stays).orElse (keepsMissing_doubleQuoted inner) ?_
  refine local_singleQuoted.settles.orElse local_singleQuoted.keepsMissing ?_
  refine local_numberLiteral.settles.orElse local_numberLiteral.keepsMissing ?_
  refine hkeyword rfl _ (hkeyword rfl _ (hkeyword rfl _ ?_))
  exact h.reference.map Expr.reference

theorem negation : Reader.Settles true (negation inner) :=
  local_notSign.lexeme.settles.bind fun _ => h.operand.cut.map Expr.not

theorem opposite : Reader.Settles true (opposite inner) :=
  (Settles.char '-').lexeme.bind fun _ => h.operand.cut.map Expr.negate

theorem unary : Reader.Settles true (unary inner) := by
  refine h.negation.orElse (keepsMissing_negation inner) ?_
  refine h.primary.orElse_of h.opposite fun part gone left e hpart hopposite hmiss => ?_
  obtain ⟨_, middle, hsign, -⟩ := of_bind_eq_done hopposite
  obtain ⟨after, hchar, -⟩ := of_lexeme_eq_done hsign
  exact misses_primary_front inner hpart (of_char_eq_done hchar) hmiss

theorem around : (Inner.around inner).Settles where
  stays := stays_around h.stays
  expression := by
    have hproduct : Reader.Settles true (product inner) := settles_chain h.unary 4 _
    have hsum : Reader.Settles true (sum inner) := settles_chain hproduct 3 _
    have hcomparison : Reader.Settles true (comparison inner) := settles_chain hsum 2 _
    have hconjunction : Reader.Settles true (conjunction inner) := settles_chain hcomparison 1 _
    exact settles_chain hconjunction 0 _
  operand := h.unary
  closer c hc part gone _ := by
    rcases List.mem_pair.mp hc with rfl | rfl <;> exact ⟨_, rfl⟩

end Inner.Settles

namespace Inner

theorem settles_within (levels : Nat) : (within levels).Settles := by
  induction levels with
  | zero =>
      exact {
        stays := stays_none
        expression := { stays := stays_none.expression, eq := nofun }
        operand := { stays := stays_none.operand, eq := nofun }
        closer := nofun }
  | succ levels ih => exact ih.around

end Inner

theorem reference_literal {levels : Nat} {text rest : List Char} {r : Reference}
    (h : reference (.within levels) text = .done r rest) :
    reference (.within levels) r.literal.toList = .done r [] := by
  rw [append_of_reference (Inner.stays_within levels) h] at h
  exact (Inner.settles_within levels).reference.eq (.free []) h

theorem readReference_literal {levels : Nat} (hlevels : levels ≤ maxNesting) {text rest : List Char}
    {r : Reference} (h : reference (.within levels) text = .done r rest) :
    readReference r.literal.toList = .done r [] := by
  have hnarrows := (Inner.Narrows.withinUpTo (Nat.le_refl maxOperators) hlevels).reference
  have hread := hnarrows r.literal.toList
  rw [Inner.withinUpTo_maxOperators, Inner.withinUpTo_maxOperators, reference_literal h] at hread
  change reference (.within maxNesting) r.literal.toList = .done r []
  generalize reference (.within maxNesting) r.literal.toList = reply at hread ⊢
  cases hread with
  | done _ _ => rfl

end Stencil.Template
