import Stencil.Proofs.NestedReading

/-! References as values of map literals. The scanner of bare values counts brackets, and those
between quotes count as well, so it may end a value inside of a reference or go on behind it. -/

namespace Stencil.Template

open Reader

/-- How many brackets are open behind the text as the scanner of bare values counts them. It counts
none behind a blank or a comma outside of brackets. -/
def openBehind? (depth : Nat) : List Char → Option Nat
  | [] => some depth
  | c :: rest =>
      if c == '\x7b' || c == '(' then openBehind? (depth + 1) rest
      else if c == '\x7d' || c == ')' then openBehind? (depth - 1) rest
      else if depth == 0 && (Text.isBlank c || c == ',') then none
      else openBehind? depth rest

theorem splitBare_append_eq_iff {depth : Nat} {text rest : List Char} :
    splitBare depth (text ++ rest) = (text, rest) ↔
      ∃ after, openBehind? depth text = some after ∧ splitBare after rest = ([], rest) := by
  induction text generalizing depth with
  | nil => simp [openBehind?]
  | cons c text ih =>
      have hcons (depth : Nat) :
          ((c :: (splitBare depth (text ++ rest)).1, (splitBare depth (text ++ rest)).2) =
            (c :: text, rest)) ↔ splitBare depth (text ++ rest) = (text, rest) := by
        simp [Prod.ext_iff]
      simp only [List.cons_append, splitBare, openBehind?]
      split
      · exact (hcons _).trans ih
      · split
        · exact (hcons _).trans ih
        · split
          · simp
          · exact (hcons _).trans ih

theorem splitBare_blank_iff {depth : Nat} {rest : List Char} :
    splitBare depth (' ' :: rest) = ([], ' ' :: rest) ↔ depth = 0 := by
  have hblank : Text.isBlank ' ' = true := by decide
  cases depth <;> simp [splitBare, hblank]

theorem openBehind?_append (depth : Nat) (front back : List Char) :
    openBehind? depth (front ++ back) = (openBehind? depth front).bind (openBehind? · back) := by
  induction front generalizing depth with
  | nil => rfl
  | cons c front ih =>
      simp only [List.cons_append, openBehind?, ih]
      split_ifs <;> rfl

def isBracket (c : Char) : Bool :=
  ['\x7b', '\x7d', '(', ')'].contains c

theorem openBehind?_of_forall {depth : Nat} (hpos : 0 < depth) {text : List Char}
    (h : ∀ c ∈ text, isBracket c = false) : openBehind? depth text = some depth := by
  induction text with
  | nil => rfl
  | cons c text ih =>
      obtain ⟨hc, htext⟩ := List.forall_mem_cons.mp h
      simp [isBracket] at hc
      have hdepth : (depth == 0) = false := beq_eq_false_iff_ne.mpr (Nat.ne_of_gt hpos)
      simp [openBehind?, hc, hdepth, ih htext]

/-- All characters of the text that stand between quotes, where the quote that is open in front of
the text may be given. -/
def betweenQuotes : Option Char → List Char → List Char
  | _, [] => []
  | none, c :: rest => betweenQuotes (if c == '\'' || c == '"' then some c else none) rest
  | some _, ['\\'] => []
  | some quote, '\\' :: c :: rest => '\\' :: c :: betweenQuotes (some quote) rest
  | some quote, c :: rest =>
      if c == quote then betweenQuotes none rest else c :: betweenQuotes (some quote) rest

theorem Enclosed.betweenQuotes_append {quote : Char} (hquote : quote ≠ '\\') {body : List Char}
    (h : Enclosed quote body) (rest : List Char) :
    betweenQuotes (some quote) (body ++ quote :: rest) = body ++ betweenQuotes none rest := by
  induction h with
  | nil => simp [betweenQuotes, hquote]
  | plain hslash hne _ ih => simp [betweenQuotes, hslash, hne, ih]
  | escape _ _ ih => simp [betweenQuotes, ih]

theorem betweenQuotes_cons {c : Char} (hc : c ≠ '\'' ∧ c ≠ '"') (rest : List Char) :
    betweenQuotes none (c :: rest) = betweenQuotes none rest := by
  simp [betweenQuotes, hc]

theorem betweenQuotes_quoted {quote : Char} (hquote : quote = '\'' ∨ quote = '"')
    {body : List Char} (hbody : Enclosed quote body) (rest : List Char) :
    betweenQuotes none (quote :: body ++ quote :: rest) = body ++ betweenQuotes none rest := by
  rw [← hbody.betweenQuotes_append (quote_ne_backslash hquote), List.cons_append]
  simp [betweenQuotes, hquote]

theorem Brackets.ne_quote {opening closing : Char} (h : Brackets opening closing) :
    (opening ≠ '\'' ∧ opening ≠ '"') ∧ closing ≠ '\'' ∧ closing ≠ '"' := by
  cases h <;> decide

theorem Brackets.openBehind?_cons {opening closing : Char} (h : Brackets opening closing)
    (depth : Nat) (rest : List Char) :
    openBehind? depth (opening :: rest) = openBehind? (depth + 1) rest ∧
      openBehind? (depth + 1) (closing :: rest) = openBehind? depth rest := by
  cases h <;> simp [openBehind?]

namespace Nested

variable {inside : Bool} {text : List Char}

theorem betweenQuotes_append (h : Nested inside text) (rest : List Char) :
    betweenQuotes none (text ++ rest) = betweenQuotes none text ++ betweenQuotes none rest := by
  induction h generalizing rest with
  | nil => rfl
  | plain hc _ ih =>
      simp [isPlain, quotesAndBrackets] at hc
      have hskip := betweenQuotes_cons ⟨hc.1.2.1, hc.1.2.2.1⟩
      rw [List.cons_append, hskip, hskip, ih]
  | @quoted quote body text hquote hbody _ ih =>
      have hsplit : quote :: body ++ quote :: text ++ rest =
          quote :: body ++ quote :: (text ++ rest) := by simp
      rw [hsplit, betweenQuotes_quoted hquote hbody, betweenQuotes_quoted hquote hbody, ih,
        List.append_assoc]
  | bracketed hbrackets _ _ ihbody ih =>
      obtain ⟨hopening, hclosing⟩ := hbrackets.ne_quote
      simp only [List.append_assoc, List.cons_append, betweenQuotes_cons hopening, ihbody,
        betweenQuotes_cons hclosing, ih]

/-- Where no bracket stands between quotes, the scanner closes all that it opens. -/
theorem openBehind?_eq (h : Nested inside text)
    (hquoted : ∀ c ∈ betweenQuotes none text, isBracket c = false) {depth : Nat}
    (hdepth : inside = true → 0 < depth) : openBehind? depth text = some depth := by
  induction h generalizing depth with
  | nil => rfl
  | @plain inside c text hc hrest ih =>
      simp [isPlain, quotesAndBrackets] at hc
      rw [betweenQuotes_cons (by simp [hc])] at hquoted
      have hends : (depth == 0 && (Text.isBlank c || c == ',')) = false := by
        cases inside with
        | true => simp [Nat.ne_of_gt (hdepth rfl)]
        | false => simpa using fun _ => hc.2
      simp [openBehind?, hc, hends, ih hquoted hdepth]
  | @quoted quote body text hquote hbody _ ih =>
      have hpos := hdepth rfl
      rw [betweenQuotes_quoted hquote hbody, List.forall_mem_append] at hquoted
      have hmarks : isBracket quote = false := by
        rcases hquote with rfl | rfl <;> decide
      -- quotes stand inside of brackets only, where what they enclose leaves the count alone
      have hfront : ∀ c ∈ quote :: body ++ [quote], isBracket c = false := by
        rw [List.forall_mem_append, List.forall_mem_cons, List.forall_mem_singleton]
        exact ⟨⟨hmarks, hquoted.1⟩, hmarks⟩
      have hsplit : quote :: body ++ quote :: text = quote :: body ++ [quote] ++ text := by simp
      rw [hsplit, openBehind?_append, openBehind?_of_forall hpos hfront, Option.bind_some,
        ih hquoted.2 hdepth]
  | @bracketed inside opening closing body text hbrackets hbody _ ihbody ih =>
      obtain ⟨hopening, hclosing⟩ := hbrackets.ne_quote
      rw [List.cons_append, betweenQuotes_cons hopening, hbody.betweenQuotes_append,
        betweenQuotes_cons hclosing, List.forall_mem_append] at hquoted
      obtain ⟨-, hclosed⟩ := hbrackets.openBehind?_cons depth text
      rw [List.cons_append, (hbrackets.openBehind?_cons depth _).1, openBehind?_append,
        ihbody hquoted.1 fun _ => Nat.succ_pos depth, Option.bind_some, hclosed,
        ih hquoted.2 hdepth]

end Nested

theorem cons_of_reference {inner : Inner} {text rest : List Char} {r : Reference}
    (h : reference inner text = .done r rest) : ∃ behind, text = '$' :: behind := by
  obtain ⟨_, _, hspanned, -⟩ := of_bind_eq_done h
  simp only [spanned] at hspanned
  split at hspanned
  · rename_i hread
    obtain ⟨_, middle, hdollar, -⟩ := of_bind_eq_done hread
    exact ⟨middle, of_char_eq_done hdollar⟩
  · cases hspanned
  · cases hspanned

/-- The text does not end in a word that asks for quotes, in letters of either case. -/
structure Unsuffixed (text : List Char) : Prop where
  single : ¬ ".to_squote".toList <:+ text.map Char.toLower
  double : ¬ ".to_quote".toList <:+ text.map Char.toLower

theorem Unsuffixed.splitQuoteSuffix_eq {text : List Char} (h : Unsuffixed text) :
    splitQuoteSuffix text = (text, none) := by
  have hends {word : String} (hword : ¬ word.toList <:+ text.map Char.toLower) :
      (decide (word.length < text.length) &&
        (text.drop (text.length - word.length)).map Char.toLower == word.toList) = false := by
    rw [Bool.eq_false_iff]
    intro htrue
    rw [Bool.and_eq_true, beq_iff_eq] at htrue
    exact hword (htrue.2 ▸ (List.drop_suffix ..).map _)
  simp only [splitQuoteSuffix]
  rw [if_neg (Bool.eq_false_iff.mp (hends h.single)),
    if_neg (Bool.eq_false_iff.mp (hends h.double))]

theorem splitQuoteSuffix_of_snd {text : List Char} (h : (splitQuoteSuffix text).2 = none) :
    (splitQuoteSuffix text).1 = text := by
  simp only [splitQuoteSuffix] at h ⊢
  split_ifs at h ⊢
  rfl

theorem exists_value_of_mapEntry {inner : Inner} {key : Name} {raw rest : List Char}
    {found : MapValue} (hfront : Stops Text.isBlank raw)
    (h : mapEntry inner (key.val ++ '=' :: raw) = .done (.mk key.text found) rest) :
    ∃ value, splitValue raw = .ok (value, rest) ∧ mapValue inner value = .ok found := by
  have hnonempty : (key.val ++ '=' :: raw).all Text.Tokens.defaultDelimiters.contains = false := by
    rw [List.all_eq_false]
    exact ⟨'=', by simp, by decide⟩
  have hkey : Text.Tokens.split? keyDelimiters (key.val ++ '=' :: raw) =
      some (key.val, '=' :: raw) :=
    PlainMap.split?_key key (List.forall_mem_nil _) (.cons (by decide) raw)
  have hequals : afterEquals? ('=' :: raw) = some raw := rfl
  have htrim : Text.trimStart raw = raw := hfront.dropWhile_eq
  simp only [mapEntry, hnonempty, hkey, key.property, hequals, htrim, Bool.false_eq_true, if_false,
    Bool.not_true] at h
  split at h
  · cases h
  · rename_i value after hcut
    split at h
    · cases h
    · split at h
      · rename_i hvalue
        cases h
        exact ⟨value, hcut, hvalue⟩
      · cases h

theorem mapLiteral_eq_done_of_passes {inner : Inner} {body rest : List Char} (h : Passes body)
    {entries : List MapEntry} :
    mapLiteral inner ('%' :: '\x7b' :: body ++ '\x7d' :: rest) = .done entries rest ↔
      mapEntries inner body = .ok entries := by
  simp only [List.cons_append, mapLiteral, h.splitAtBrace_eq rest]
  cases mapEntries inner body with
  | ok found => simp
  | error fault => simp

section

variable {levels : Nat} {text : List Char} {r : Reference}
  (hread : reference (Inner.within levels) text = .done r [])
include hread

theorem mapValue_reference_iff (hunsuffixed : Unsuffixed text) {raw value rest : List Char}
    (hcut : splitValue raw = .ok (value, rest)) :
    mapValue (Inner.within levels) value = .ok (.reference r none) ↔ value = text := by
  obtain ⟨happend, -⟩ := nested_of_reference hread
  constructor
  · intro hvalue
    obtain hscalar | ⟨_, _, -, hmap, -⟩ := mapValue_cases hcut hvalue
    · generalize hquote : MapValue.reference r none = found at hscalar
      cases hscalar with
      | @reference body target htarget =>
          obtain ⟨rfl, hnone⟩ := MapValue.reference.inj hquote
          rw [splitQuoteSuffix_of_snd hnone.symm] at htarget
          exact (nested_of_reference htarget).1.trans happend.symm
      | quoted | number | boolean => cases hquote
    · cases hmap
  · rintro rfl
    obtain ⟨body, rfl⟩ := cons_of_reference hread
    have htarget : reference (Inner.within levels) (splitQuoteSuffix ('$' :: body)).1 =
        .done r [] := by
      rw [hunsuffixed.splitQuoteSuffix_eq, hread]
    have hvalue := (ScalarText.reference htarget).mapValue_eq
    rwa [hunsuffixed.splitQuoteSuffix_eq] at hvalue

/-- An entry gives the reference to its key just where the scanner cuts the reference out. -/
theorem mapEntries_reference_iff (hunsuffixed : Unsuffixed text) (key : Name) {rest : List Char}
    {others : List MapEntry} (hrest : separates rest = true) :
    mapEntries (Inner.within levels) (key.val ++ '=' :: (text ++ rest)) =
        .ok (.mk key.text (.reference r none) :: others) ↔
      splitBare 0 (text ++ rest) = (text, rest) ∧
        mapEntries (Inner.within levels) rest = .ok others := by
  obtain ⟨body, rfl⟩ := cons_of_reference hread
  have hsplit : splitValue ('$' :: body ++ rest) = .ok (splitBare 0 ('$' :: body ++ rest)) := rfl
  have hfront : Stops Text.isBlank ('$' :: body ++ rest) := .cons (by decide) _
  constructor
  · intro h
    obtain ⟨final, hrounds⟩ := mapEntries_eq_ok_iff.mp h
    cases hrounds with
    | round hdone _ hothers =>
        obtain ⟨value, hvalue, hfound⟩ := exists_value_of_mapEntry hfront hdone
        obtain rfl := (mapValue_reference_iff hread hunsuffixed hvalue).mp hfound
        have hcut := Except.ok.inj (hsplit.symm.trans hvalue)
        obtain rfl := List.append_cancel_left (append_of_splitValue hvalue)
        exact ⟨hcut, mapEntries_eq_ok_iff.mpr ⟨final, hothers⟩⟩
  · rintro ⟨hcut, hothers⟩
    obtain ⟨final, hrounds⟩ := mapEntries_eq_ok_iff.mp hothers
    rw [hcut] at hsplit
    have hparts : EntryParts (Inner.within levels) key (.reference r none) [] [] []
        ('$' :: body) rest := {
      gap := List.forall_mem_nil _
      before := .bare
      after := List.forall_mem_nil _
      cut := hsplit
      value := (mapValue_reference_iff hread hunsuffixed hsplit).mpr rfl
      front := hfront
      rest := hrest }
    have hentry := hparts.mapEntry_eq
    exact mapEntries_eq_ok_iff.mpr
      ⟨final, .round hentry (advances_mapEntry _ hentry) hrounds⟩

theorem passes_entry_reference (key : Name) {rest : List Char} (hrest : Nested true rest) :
    Passes (key.val ++ '=' :: (text ++ rest)) := by
  obtain ⟨happend, hnested⟩ := nested_of_reference hread
  rw [List.append_nil] at happend
  have hvalue : Nested true text := happend ▸ hnested.indoors
  exact (key.nested.append (.plain rfl (hvalue.append hrest))).passes

theorem mapLiteral_reference_iff (hunsuffixed : Unsuffixed text) (key : Name) {rest : List Char}
    {others : List MapEntry} (hrest : separates rest = true) (hnested : Nested true rest)
    (hothers : mapEntries (Inner.within levels) rest = .ok others) :
    mapLiteral (Inner.within levels)
        ('%' :: '\x7b' :: (key.val ++ '=' :: (text ++ rest)) ++ ['\x7d']) =
        .done (.mk key.text (.reference r none) :: others) [] ↔
      ∃ depth, openBehind? 0 text = some depth ∧ splitBare depth rest = ([], rest) := by
  rw [mapLiteral_eq_done_of_passes (passes_entry_reference hread key hnested),
    mapEntries_reference_iff hread hunsuffixed key hrest, splitBare_append_eq_iff]
  exact and_iff_left hothers

end

theorem holds_one : IntegerKind.int32.Holds 1 :=
  ⟨by decide, by decide⟩

def one : Number :=
  .integer .int32 1 holds_one

theorem mapEntries_one (levels : Nat) (key : Name) :
    mapEntries (Inner.within levels) (' ' :: ',' :: ' ' :: (key.val ++ ['=', '1'])) =
      .ok [.mk key.text (.number one)] := by
  have hparts : EntryParts (Inner.within levels) key (.number one) [' ', ',', ' '] [] []
      ['1'] [] := {
    gap := List.all_eq_true.mp rfl
    before := .bare
    after := List.forall_mem_nil _
    cut := rfl
    value := rfl
    front := .cons (by decide) _
    rest := rfl }
  have hentry := hparts.mapEntry_eq
  have hnil : Misses (mapEntry (Inner.within levels)) [] :=
    PlainMap.misses_mapEntry_iff.mpr (List.forall_mem_nil _)
  exact PlainMap.mapEntries_of_rounds (.round hentry (advances_mapEntry _ hentry) (.stop hnil))

/-- A map literal gives a reference to a key just where the scanner counts no blank and no comma of
the reference as one outside of brackets, and where more entries follow, just where it moreover
closes all brackets that it opens. It does so if no bracket stands between quotes. -/
theorem reference_as_value {text : List Char} {r : Reference}
    (hread : readReference text = .done r []) (hunsuffixed : Unsuffixed text) (key other : Name) :
    (readMapLiteral ('%' :: '\x7b' :: (key.val ++ '=' :: text) ++ ['\x7d']) =
        .done [.mk key.text (.reference r none)] [] ↔
      ∃ depth, openBehind? 0 text = some depth) ∧
    (readMapLiteral ('%' :: '\x7b' ::
        (key.val ++ '=' :: (text ++ ' ' :: ',' :: ' ' :: (other.val ++ ['=', '1']))) ++ ['\x7d']) =
        .done [.mk key.text (.reference r none), .mk other.text (.number one)] [] ↔
      openBehind? 0 text = some 0) ∧
    ((∀ c ∈ betweenQuotes none text, isBracket c = false) → openBehind? 0 text = some 0) := by
  refine ⟨?_, ?_, fun hquoted => ?_⟩
  · have hnone : mapEntries (Inner.within maxNesting) [] = .ok [] := rfl
    have hliteral := mapLiteral_reference_iff hread hunsuffixed key rfl (.nil true) hnone
    rw [List.append_nil] at hliteral
    refine hliteral.trans (exists_congr fun depth => ?_)
    exact and_iff_left rfl
  · have hbehind : Nested true (' ' :: ',' :: ' ' :: (other.val ++ ['=', '1'])) := by
      have hone : Nested true ['=', '1'] := .of_forall (List.all_eq_true.mp rfl)
      exact .plain rfl (.plain rfl (.plain rfl (other.nested.append hone)))
    have hliteral := mapLiteral_reference_iff hread hunsuffixed key rfl hbehind
      (mapEntries_one maxNesting other)
    refine hliteral.trans ?_
    simp only [splitBare_blank_iff, exists_eq_right]
  · obtain ⟨happend, hnested⟩ := nested_of_reference hread
    rw [List.append_nil] at happend
    rw [happend] at hquoted ⊢
    exact hnested.openBehind?_eq hquoted nofun

def calledReference : Reference :=
  .mk false "a"
    [.method "f"
      [.literal (.text "x, y"),
        .list [.literal (.number one),
          .reference (.mk false "b" [.method "g" []] "$b.g()")]]]
    "$a.f('x, y', [1, $b.g()])"

/-- Blanks, commas and brackets between brackets are part of the value. -/
theorem reference_as_value_called :
    readReference "$a.f('x, y', [1, $b.g()])".toList = .done calledReference [] ∧
    Unsuffixed "$a.f('x, y', [1, $b.g()])".toList ∧
    readMapLiteral "%\x7bk=$a.f('x, y', [1, $b.g()])\x7d".toList =
      .done [.mk "k" (.reference calledReference none)] [] ∧
    readMapLiteral "%\x7bk=$a.f('x, y', [1, $b.g()]) , j=1\x7d".toList =
      .done [.mk "k" (.reference calledReference none), .mk "j" (.number one)] [] := by
  have hread : readReference "$a.f('x, y', [1, $b.g()])".toList = .done calledReference [] := rfl
  have hunsuffixed : Unsuffixed "$a.f('x, y', [1, $b.g()])".toList := ⟨by decide, by decide⟩
  obtain ⟨halone, hfollowed, hclosed⟩ :=
    reference_as_value hread hunsuffixed ⟨['k'], rfl⟩ ⟨['j'], rfl⟩
  have hcount := hclosed (by
    change ∀ c ∈ ['x', ',', ' ', 'y'], isBracket c = false
    simp [isBracket])
  exact ⟨hread, hunsuffixed, halone.mpr ⟨0, hcount⟩, hfollowed.mpr hcount⟩

/-- A bracket between quotes ends the value early, or keeps it open over the next entry. -/
theorem reference_refused_as_value :
    (∃ r fault, readReference "$a.f(') ')".toList = .done r [] ∧
      Unsuffixed "$a.f(') ')".toList ∧
      readMapLiteral "%\x7bk=$a.f(') ')\x7d".toList = .halt fault) ∧
    ∃ r fault, readReference "$a.f('(')".toList = .done r [] ∧
      Unsuffixed "$a.f('(')".toList ∧
      readMapLiteral "%\x7bk=$a.f('(') , j=1\x7d".toList = .halt fault := by
  exact ⟨⟨_, _, rfl, ⟨by decide, by decide⟩, rfl⟩, ⟨_, _, rfl, ⟨by decide, by decide⟩, rfl⟩⟩

end Stencil.Template
