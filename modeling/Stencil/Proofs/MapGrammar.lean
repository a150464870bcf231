import Stencil.Proofs.MapReading
import Stencil.Proofs.Staying

/-! The language of map literals. Grammars for them differ in the punctuation around the keys. The
documented one has blanks there, and one comma at most between two entries. The one that is read
lets commas and equals signs stand in front of any key, and one comma behind it. -/

namespace Stencil.Template

open Reader

/-- The texts of the values: a template between quotes, a reference, with a word for quotes behind
it or without, a numeral, or a truth value. -/
inductive ScalarText (inner : Inner) : List Char → MapValue → Prop where
  | quoted {quote : Char} {body : List Char} {nodes : List Node}
      (hquote : quote = '\'' ∨ quote = '"')
      (hnodes : nodeSequence inner (unescape body) = .done nodes []) :
      ScalarText inner (quote :: body ++ [quote]) (.text nodes)
  | reference {body : List Char} {target : Reference}
      (htarget : reference inner (splitQuoteSuffix ('$' :: body)).1 = .done target []) :
      ScalarText inner ('$' :: body) (.reference target (splitQuoteSuffix ('$' :: body)).2)
  | number {text : List Char} {n : Number} (hnumeral : numeral? text = some n) :
      ScalarText inner text (.number n)
  | boolean (value : Bool) : ScalarText inner (toString value).toList (.boolean value)

theorem isDigit_of_span {c : Char} {others integral rest : List Char}
    (hspan : (c :: others).span (· != '.') = (integral, rest))
    (hdigits : (!integral.isEmpty && integral.all Char.isDigit) = true) : c.isDigit = true := by
  rw [List.span_eq_takeWhile_dropWhile] at hspan
  cases hspan
  by_cases hpoint : c = '.'
  · simp [hpoint] at hdigits
  · simp [hpoint] at hdigits
    exact hdigits.1

theorem exists_cons_of_numeral? {text : List Char} {n : Number} (h : numeral? text = some n) :
    ∃ c others, text = c :: others ∧ opensNumeral c = true := by
  cases text with
  | nil => cases h
  | cons c others =>
      refine ⟨c, others, rfl, ?_⟩
      simp only [opensNumeral, Bool.or_eq_true, beq_iff_eq]
      simp only [numeral?] at h
      split at h
      · rename_i hspan
        split at h
        · rename_i hdigits
          rw [Bool.and_eq_true] at hdigits
          split at hspan
          · rename_i hsign
            exact .inl (List.cons.inj hsign).1
          · exact .inr (isDigit_of_span hspan hdigits.1)
        · cases h
      · rename_i hspan
        split at h
        · rename_i hdigits
          split at hspan
          · rename_i hsign
            exact .inl (List.cons.inj hsign).1
          · exact .inr (isDigit_of_span hspan hdigits)
        · cases h

namespace ScalarText

variable {inner : Inner} {text : List Char} {found : MapValue}

theorem front (h : ScalarText inner text found) :
    ∃ c others, text = c :: others ∧ Text.isBlank c = false := by
  cases h with
  | quoted hquote _ =>
      refine ⟨_, _, rfl, ?_⟩
      rcases hquote with rfl | rfl <;> decide
  | reference _ => exact ⟨_, _, rfl, by decide⟩
  | number hnumeral =>
      obtain ⟨c, others, rfl, hc⟩ := exists_cons_of_numeral? hnumeral
      have hbare : isBareChar c = true := by
        simp only [opensNumeral, Bool.or_eq_true] at hc
        rcases hc with hc | hc <;> simp [isBareChar, isIdentifierChar, Char.isAlphanum, hc]
      exact ⟨c, others, rfl, isBlank_of_isBareChar hbare⟩
  | boolean value => cases value <;> exact ⟨_, _, rfl, by decide⟩

theorem mapValue_eq (h : ScalarText inner text found) : mapValue inner text = .ok found := by
  cases h with
  | @quoted quote body nodes hquote hnodes =>
      have hends := withoutEnds_concat quote quote body
      rw [List.cons_append] at hends ⊢
      rcases hquote with rfl | rfl <;>
        simp only [mapValue, hends, wholly_of_done hnodes]
  | reference htarget => simp only [mapValue, wholly_of_done htarget]
  | number hnumeral =>
      obtain ⟨c, others, rfl, hc⟩ := exists_cons_of_numeral? hnumeral
      have hother : ['\'', '"', '\x7b', '$', 't', 'f'].contains c = false :=
        contains_eq_false hc rfl
      simp at hother
      simp [mapValue, hother, hnumeral]
  | boolean value => cases value <;> rfl

end ScalarText

theorem quoted_of_splitValue {text tail rest : List Char} {quote : Char}
    (hquote : quote = '\'' ∨ quote = '"') (h : splitValue text = .ok (quote :: tail, rest)) :
    ∃ body, tail = body ++ [quote] := by
  have happend := append_of_splitValue h
  rw [List.cons_append] at happend
  subst happend
  have hopen : (quote == '\'' || quote == '"') = true := by simpa using hquote
  simp only [splitValue, hopen, if_true] at h
  split at h
  · rename_i body after hsplit
    have hvalue := (Prod.mk.inj (Except.ok.inj h)).1
    exact ⟨body, (List.cons.inj hvalue).2.symm⟩
  · cases h

theorem mapValue_cases {inner : Inner} {text value rest : List Char} {found : MapValue}
    (hcut : splitValue text = .ok (value, rest)) (h : mapValue inner value = .ok found) :
    ScalarText inner value found ∨
      ∃ body entries, value = '\x7b' :: body ++ ['\x7d'] ∧ found = .map entries ∧
        inner.braced value = .ok entries := by
  have hquoted {quote : Char} {tail after : List Char} {nodes : List Node}
      (hquote : quote = '\'' ∨ quote = '"') (hcut : splitValue text = .ok (quote :: tail, rest))
      (hnodes : wholly (nodeSequence inner) (unescape (withoutEnds (quote :: tail))) =
        .done nodes after) :
      ScalarText inner (quote :: tail) (.text nodes) := by
    obtain ⟨body, rfl⟩ := quoted_of_splitValue hquote hcut
    rw [← List.cons_append, withoutEnds_concat] at hnodes
    exact .quoted hquote (of_wholly_eq_done hnodes)
  simp only [mapValue] at h
  split at h
  · split at h
    · rename_i hnodes
      cases h
      exact .inl (hquoted (.inl rfl) hcut hnodes)
    · cases h
  · split at h
    · rename_i hnodes
      cases h
      exact .inl (hquoted (.inr rfl) hcut hnodes)
    · cases h
  · obtain ⟨body, rfl⟩ := closed_of_splitValue hcut
    cases hbraced : inner.braced ('\x7b' :: (body ++ ['\x7d'])) with
    | error fault => simp [hbraced, Except.map] at h
    | ok entries =>
        rw [hbraced] at h
        cases h
        exact .inr ⟨body, entries, rfl, rfl, rfl⟩
  · split at h
    · rename_i htarget
      cases h
      exact .inl (.reference (of_wholly_eq_done htarget))
    · cases h
  · split at h
    · rename_i htrue
      cases h
      rw [eq_of_beq htrue]
      exact .inl (.boolean true)
    · split at h
      · rename_i hfalse
        cases h
        rw [eq_of_beq hfalse]
        exact .inl (.boolean false)
      · split at h
        · rename_i hnumeral
          cases h
          exact .inl (.number hnumeral)
        · cases h

def IsBlankRun (text : List Char) : Prop :=
  ∀ c ∈ text, Text.isBlank c = true

/-- What may stand in front of a key, in front of its equals sign, and behind the last entry. -/
structure Punctuation where
  gap : Bool → List Char → Prop
  beforeEquals : List Char → Prop
  trailing : List Char → Prop

namespace Punctuation

inductive BlankGap : Bool → List Char → Prop where
  | leading {blanks : List Char} (h : IsBlankRun blanks) : BlankGap true blanks
  | blanks {blanks : List Char} (h : IsBlankRun blanks) (hne : blanks ≠ []) : BlankGap false blanks
  | comma {before after : List Char} (hbefore : IsBlankRun before) (hafter : IsBlankRun after) :
      BlankGap false (before ++ ',' :: after)

/-- Blanks, and a comma in place of them or among them between two entries. -/
def documented : Punctuation where
  gap := BlankGap
  beforeEquals := IsBlankRun
  trailing := IsBlankRun

/-- Delimiters of keys. Behind a value no equals sign is the first of them. -/
structure DelimiterGap (first : Bool) (gap : List Char) : Prop where
  delimiters : ∀ c ∈ gap, keyDelimiters.contains c = true
  front : first = false → ∃ c others, gap = c :: others ∧ c ≠ '='

/-- The delimiter that ends the key may be any one. -/
inductive DelimiterEnd : List Char → Prop where
  | bare : DelimiterEnd []
  | delimited {d : Char} {blanks : List Char} (hd : keyDelimiters.contains d = true)
      (hne : d ≠ '=') (hblanks : IsBlankRun blanks) : DelimiterEnd (d :: blanks)

/-- What is read: commas and equals signs count as blanks do in front of a key, and a comma may end
it. -/
def accepted : Punctuation where
  gap := DelimiterGap
  beforeEquals := DelimiterEnd
  trailing blanks := ∀ c ∈ blanks, Text.Tokens.defaultDelimiters.contains c = true

end Punctuation

/-- `MapBody p levels first entries text`: the text has the entries, punctuated as `p` says, with
maps up to that many levels inside each other, as the first ones of a map or behind others. Values
are what the scanner for them cuts out. -/
inductive MapBody (p : Punctuation) : Nat → Bool → List MapEntry → List Char → Prop where
  | nil {levels : Nat} {first : Bool} {blanks : List Char} (htrailing : p.trailing blanks) :
      MapBody p levels first [] blanks
  | scalar {levels : Nat} {first : Bool} {key : Name} {value : MapValue} {others : List MapEntry}
      {gap before after valueText rest : List Char} (hgap : p.gap first gap)
      (hbefore : p.beforeEquals before) (hafter : IsBlankRun after)
      (hcut : splitValue (valueText ++ rest) = .ok (valueText, rest))
      (hvalue : ScalarText (Inner.within levels) valueText value)
      (hothers : MapBody p levels false others rest) :
      MapBody p levels first (.mk key.text value :: others)
        (gap ++ (key.val ++ (before ++ '=' :: (after ++ (valueText ++ rest)))))
  | nested {levels : Nat} {first : Bool} {key : Name} {inside others : List MapEntry}
      {gap before after body rest : List Char} (hgap : p.gap first gap)
      (hbefore : p.beforeEquals before) (hafter : IsBlankRun after)
      (hcut : splitValue ('\x7b' :: body ++ ['\x7d'] ++ rest) =
        .ok ('\x7b' :: body ++ ['\x7d'], rest))
      (hvalue : MapBody p levels true inside body)
      (hothers : MapBody p (levels + 1) false others rest) :
      MapBody p (levels + 1) first (.mk key.text (.map inside) :: others)
        (gap ++ (key.val ++ (before ++ '=' :: (after ++ ('\x7b' :: body ++ ['\x7d'] ++ rest)))))

/-- The parts of the text of an entry and of what follows it, as they are cut out. -/
structure EntryCut (gap before after valueText rest : List Char) : Prop where
  gap : ∀ c ∈ gap, keyDelimiters.contains c = true
  before : Punctuation.DelimiterEnd before
  after : IsBlankRun after
  cut : splitValue (valueText ++ rest) = .ok (valueText, rest)
  front : Stops Text.isBlank (valueText ++ rest)
  rest : separates rest = true

structure EntryParts (inner : Inner) (key : Name) (found : MapValue)
    (gap before after valueText rest : List Char) : Prop
    extends EntryCut gap before after valueText rest where
  value : mapValue inner valueText = .ok found

theorem afterEquals?_of_delimiterEnd {before : List Char} (h : Punctuation.DelimiterEnd before)
    (raw : List Char) : afterEquals? (before ++ '=' :: raw) = some raw := by
  cases h with
  | bare => rfl
  | @delimited d blanks hd hne hblanks =>
      have hstops : Stops Text.isBlank ('=' :: raw) := .cons (by decide) raw
      have htrim : Text.trimStart (blanks ++ '=' :: raw) = '=' :: raw :=
        hstops.dropWhile_append hblanks
      rw [List.cons_append, afterEquals?, List.tail_cons, htrim]
      · rfl
      · intro _ heq
        exact hne (List.cons.inj heq).1

theorem EntryCut.mapEntry_eq {gap before after valueText rest : List Char}
    (h : EntryCut gap before after valueText rest) (inner : Inner) (key : Name) :
    mapEntry inner (gap ++ (key.val ++ (before ++ '=' :: (after ++ (valueText ++ rest))))) =
      match mapValue inner valueText with
      | .ok found => .done (.mk key.text found) rest
      | .error fault => .halt (fault.before rest.length) := by
  have hstops : Stops (!keyDelimiters.contains ·)
      (before ++ '=' :: (after ++ (valueText ++ rest))) := by
    cases h.before with
    | bare => exact .cons (by decide) _
    | delimited hd => exact .cons (by simp only [hd, Bool.not_true]) _
  have htrim : Text.trimStart (after ++ (valueText ++ rest)) = valueText ++ rest :=
    h.front.dropWhile_append h.after
  exact PlainMap.mapEntry_parts h.gap hstops (afterEquals?_of_delimiterEnd h.before _)
    (by rw [htrim, h.cut]) h.rest

theorem EntryParts.mapEntry_eq {inner : Inner} {key : Name} {found : MapValue}
    {gap before after valueText rest : List Char}
    (h : EntryParts inner key found gap before after valueText rest) :
    mapEntry inner (gap ++ (key.val ++ (before ++ '=' :: (after ++ (valueText ++ rest))))) =
      .done (.mk key.text found) rest := by
  rw [h.toEntryCut.mapEntry_eq inner key, h.value]

theorem exists_delimiterEnd {text raw : List Char}
    (hstops : Stops (!keyDelimiters.contains ·) text) (h : afterEquals? text = some raw) :
    ∃ before, Punctuation.DelimiterEnd before ∧ text = before ++ '=' :: raw := by
  unfold afterEquals? at h
  split at h
  · cases h
    exact ⟨[], .bare, rfl⟩
  · rename_i hne
    split at h
    · rename_i hequals
      cases h
      cases text with
      | nil => cases hequals
      | cons d others =>
          have hd : keyDelimiters.contains d = true := by simpa using hstops d rfl
          have hothers : others = others.takeWhile Text.isBlank ++ '=' :: raw := by
            rw [← hequals, List.tail_cons, Text.trimStart, List.takeWhile_append_dropWhile]
          refine ⟨d :: others.takeWhile Text.isBlank, ?_, congrArg (d :: ·) hothers⟩
          refine .delimited hd ?_ fun _ => List.mem_takeWhile_imp
          rintro rfl
          exact hne _ rfl
    · cases h

theorem exists_entryParts {inner : Inner} {text rest : List Char} {entry : MapEntry}
    (h : mapEntry inner text = .done entry rest) :
    ∃ key found gap before after valueText, entry = .mk key.text found ∧
      text = gap ++ (key.val ++ (before ++ '=' :: (after ++ (valueText ++ rest)))) ∧
      EntryParts inner key found gap before after valueText rest := by
  simp only [mapEntry] at h
  split at h
  · cases h
  · split at h
    · cases h
    · rename_i key behind hsplit
      obtain ⟨-, gap, hgap, rfl, hstops⟩ := append_of_split? hsplit
      split at h
      · cases h
      · rename_i hkey
        split at h
        · cases h
        · rename_i raw hequals
          obtain ⟨before, hbefore, rfl⟩ := exists_delimiterEnd hstops hequals
          split at h
          · cases h
          · rename_i valueText after hcut
            split at h
            · cases h
            · rename_i hseparates
              split at h
              · rename_i found hvalue
                cases h
                have happend : Text.trimStart raw = valueText ++ rest := append_of_splitValue hcut
                have hraw : raw = raw.takeWhile Text.isBlank ++ (valueText ++ rest) := by
                  rw [← happend, Text.trimStart, List.takeWhile_append_dropWhile]
                refine ⟨⟨key, by simpa using hkey⟩, found, gap, before,
                  raw.takeWhile Text.isBlank, valueText, rfl, by rw [← hraw], ?_⟩
                exact {
                  gap := hgap
                  before := hbefore
                  after := fun _ => List.mem_takeWhile_imp
                  cut := happend ▸ hcut
                  value := hvalue
                  front := happend ▸ isBlank_head?_trimStart raw
                  rest := by simpa using hseparates }
              · cases h

theorem advances_mapEntry (inner : Inner) : Advances (mapEntry inner) := by
  intro text rest entry h
  obtain ⟨key, found, gap, before, after, valueText, -, rfl, -⟩ := exists_entryParts h
  simp only [List.length_append, List.length_cons]
  omega

theorem mapEntries_eq_ok_iff {inner : Inner} {body : List Char} {entries : List MapEntry} :
    mapEntries inner body = .ok entries ↔ ∃ rest, Rounds (mapEntry inner) body entries rest := by
  refine ⟨fun h => ?_, fun ⟨rest, h⟩ => PlainMap.mapEntries_of_rounds h⟩
  have hnil : Misses (mapEntry inner) [] := PlainMap.misses_mapEntry_iff.mpr (List.forall_mem_nil _)
  simp only [mapEntries] at h
  split at h
  · rename_i rest hmany
    cases h
    exact ⟨rest, (advances_mapEntry inner).rounds_of_many hnil hmany⟩
  · cases h
  · cases h

theorem separates_of_delimiterGap {gap : List Char} (h : Punctuation.DelimiterGap false gap)
    (rest : List Char) : separates (gap ++ rest) = true := by
  obtain ⟨c, others, rfl, hne⟩ := h.front rfl
  have hc : keyDelimiters.contains c = true := h.delimiters c (List.mem_cons_self ..)
  simp [keyDelimiters, hne] at hc
  rcases hc with rfl | rfl | rfl | rfl | rfl <;> rfl

theorem delimiterGap_of_separates {gap : List Char} {key : Name} {rest : List Char}
    (hgap : ∀ c ∈ gap, keyDelimiters.contains c = true)
    (h : separates (gap ++ (key.val ++ rest)) = true) : Punctuation.DelimiterGap false gap := by
  refine ⟨hgap, fun _ => ?_⟩
  cases gap with
  | nil =>
      obtain ⟨c, others, hname, -, -⟩ := isIdentifier_iff.mp key.property
      have hbare : isBareChar c = true :=
        isBareChar_of_mem_name (hname ▸ List.mem_cons_self .. : c ∈ key.val)
      have hcomma : [','].contains c = false := contains_eq_false hbare rfl
      simp at hcomma
      simp [hname, separates, isBlank_of_isBareChar hbare, hcomma] at h
  | cons c others =>
      refine ⟨c, others, rfl, ?_⟩
      rintro rfl
      cases h

namespace MapBody

variable {levels : Nat} {first : Bool} {entries : List MapEntry} {text : List Char}

theorem separates (h : MapBody .accepted levels false entries text) :
    Template.separates text = true := by
  cases h with
  | nil htrailing =>
      cases text with
      | nil => rfl
      | cons c blanks =>
          have hc := htrailing c (List.mem_cons_self ..)
          simp [Text.Tokens.defaultDelimiters] at hc
          rcases hc with rfl | rfl | rfl | rfl | rfl <;> rfl
  | scalar hgap => exact separates_of_delimiterGap hgap _
  | nested hgap => exact separates_of_delimiterGap hgap _

theorem rounds (h : MapBody .accepted levels first entries text) :
    ∃ rest, Rounds (mapEntry (Inner.within levels)) text entries rest := by
  induction h with
  | nil htrailing => exact ⟨_, .stop (PlainMap.misses_mapEntry_iff.mpr htrailing)⟩
  | @scalar levels first key value others gap before after valueText rest hgap hbefore hafter hcut
      hvalue hothers ih =>
      obtain ⟨c, chars, rfl, hblank⟩ := hvalue.front
      have hparts : EntryParts _ key _ gap before after _ rest := {
        gap := hgap.delimiters
        before := hbefore
        after := hafter
        cut := hcut
        value := hvalue.mapValue_eq
        front := .cons hblank _
        rest := hothers.separates }
      obtain ⟨rest, hrounds⟩ := ih
      exact ⟨rest, .round hparts.mapEntry_eq (advances_mapEntry _ hparts.mapEntry_eq) hrounds⟩
  | @nested levels first key inside others gap before after body rest hgap hbefore hafter hcut
      hvalue hothers ihvalue ih =>
      have hbraced : (Inner.within (levels + 1)).braced ('\x7b' :: body ++ ['\x7d']) =
          .ok inside := by
        change bracedEntries (Inner.within levels) _ = _
        rw [bracedEntries, withoutEnds_concat, mapEntries_eq_ok_iff.mpr ihvalue]
        rfl
      have hparts : EntryParts _ key _ gap before after _ rest := {
        gap := hgap.delimiters
        before := hbefore
        after := hafter
        cut := hcut
        value := congrArg (Except.map MapValue.map) hbraced
        front := .cons (by decide) _
        rest := hothers.separates }
      obtain ⟨rest, hrounds⟩ := ih
      exact ⟨rest, .round hparts.mapEntry_eq (advances_mapEntry _ hparts.mapEntry_eq) hrounds⟩

theorem of_rounds {rest : List Char}
    (h : Rounds (mapEntry (Inner.within levels)) text entries rest)
    (hfront : first = false → Template.separates text = true) :
    MapBody .accepted levels first entries text := by
  induction levels using Nat.strong_induction_on generalizing first text entries rest with
  | _ levels outer =>
      induction h generalizing first with
      | stop hmiss => exact .nil (PlainMap.misses_mapEntry_iff.mp hmiss)
      | @round text middle rest entry others hdone hlt hrounds ih =>
          obtain ⟨key, found, gap, before, after, valueText, rfl, rfl, hparts⟩ :=
            exists_entryParts hdone
          have hgap : Punctuation.accepted.gap first gap := by
            cases first with
            | true => exact ⟨hparts.gap, nofun⟩
            | false => exact delimiterGap_of_separates hparts.gap (hfront rfl)
          have hothers : MapBody .accepted levels false others middle := ih fun _ => hparts.rest
          obtain hscalar | ⟨body, inside, rfl, rfl, hbraced⟩ :=
            mapValue_cases hparts.cut hparts.value
          · exact .scalar hgap hparts.before hparts.after hparts.cut hscalar hothers
          · cases levels with
            | zero => cases hbraced
            | succ levels =>
                change bracedEntries (Inner.within levels) _ = _ at hbraced
                rw [bracedEntries, withoutEnds_concat] at hbraced
                cases hinside : mapEntries (Inner.within levels) body with
                | error fault => simp [hinside, Except.mapError] at hbraced
                | ok found =>
                    rw [hinside] at hbraced
                    cases hbraced
                    obtain ⟨_, hbody⟩ := mapEntries_eq_ok_iff.mp hinside
                    have hvalue : MapBody .accepted levels true inside body :=
                      outer levels (Nat.lt_succ_self _) hbody nofun
                    exact .nested hgap hparts.before hparts.after hparts.cut hvalue hothers

end MapBody

/-- A map literal is read exactly where its body has entries with the accepted punctuation, up to
the brace that the scanner finds. -/
theorem mapLiteral_eq_done_iff (levels : Nat) (text rest : List Char) (entries : List MapEntry) :
    mapLiteral (Inner.within levels) text = .done entries rest ↔
      ∃ body, text = '%' :: '\x7b' :: body ++ '\x7d' :: rest ∧
        splitAtBrace 0 none (body ++ '\x7d' :: rest) = some (body, rest) ∧
        MapBody .accepted levels true entries body := by
  constructor
  · intro h
    unfold mapLiteral at h
    split at h
    · rename_i behind
      split at h
      · cases h
      · rename_i body after hsplit
        split at h
        · rename_i found hentries
          cases h
          obtain ⟨_, hrounds⟩ := mapEntries_eq_ok_iff.mp hentries
          obtain rfl := append_of_splitAtBrace hsplit
          exact ⟨body, rfl, hsplit, .of_rounds hrounds nofun⟩
        · cases h
    · cases h
  · rintro ⟨body, rfl, hsplit, hbody⟩
    simp only [List.cons_append, mapLiteral, hsplit, mapEntries_eq_ok_iff.mpr hbody.rounds]

theorem IsBlankRun.not_mem {c : Char} (hc : Text.isBlank c = false) {blanks : List Char}
    (h : IsBlankRun blanks) : c ∉ blanks :=
  fun hmem => Bool.false_ne_true (hc.symm.trans (h c hmem))

theorem takeWhile_equals {front : List Char} (h : '=' ∉ front) (behind : List Char) :
    (front ++ '=' :: behind).takeWhile (· != '=') = front := by
  have hfront : ∀ c ∈ front, (c != '=') = true := fun c hc =>
    bne_iff_ne.mpr fun heq => h (heq ▸ hc)
  exact Stops.takeWhile_append hfront (.cons (by decide) behind)

/-- With the documented punctuation no comma stands in front of the first equals sign. -/
theorem MapBody.comma_not_mem {levels : Nat} {entries : List MapEntry}
    {text front behind : List Char} (h : MapBody .documented levels true entries text)
    (htext : text = front ++ '=' :: behind) (hfirst : '=' ∉ front) : ',' ∉ front := by
  have hentry {key : Name} {gap before raw : List Char} (hgap : Punctuation.BlankGap true gap)
      (hbefore : IsBlankRun before)
      (htext : gap ++ (key.val ++ (before ++ '=' :: raw)) = front ++ '=' :: behind) :
      ',' ∉ front := by
    have hother (c : Char) (hc : Text.isBlank c = false) (hbare : isBareChar c = false) :
        c ∉ gap ++ (key.val ++ before) := by
      cases hgap with
      | leading hgap =>
          simp only [List.mem_append, not_or]
          refine ⟨hgap.not_mem hc, fun hmem => ?_, hbefore.not_mem hc⟩
          exact Bool.false_ne_true (hbare.symm.trans (isBareChar_of_mem_name hmem))
    have hparts : gap ++ (key.val ++ before) = front := by
      rw [← takeWhile_equals hfirst behind, ← htext, ← takeWhile_equals (hother '=' rfl rfl) raw]
      simp only [List.append_assoc]
    exact hparts ▸ hother ',' rfl rfl
  cases h with
  | nil htrailing =>
      subst htext
      exact absurd (List.mem_append_right _ (List.mem_cons_self ..))
        (IsBlankRun.not_mem (c := '=') (by decide) htrailing)
  | scalar hgap hbefore => exact hentry hgap hbefore htext
  | nested hgap hbefore => exact hentry hgap hbefore htext

theorem not_documented_of_comma {text front behind : List Char}
    (htext : text = '%' :: '\x7b' :: (front ++ '=' :: behind) ++ ['\x7d']) (hfirst : '=' ∉ front)
    (hcomma : ',' ∈ front) {levels : Nat} {entries : List MapEntry} {body : List Char}
    (hbody : text = '%' :: '\x7b' :: body ++ ['\x7d']) :
    ¬ MapBody .documented levels true entries body := by
  intro h
  have hparts : body = front ++ '=' :: behind :=
    List.append_cancel_right (List.cons.inj (List.cons.inj (hbody.symm.trans htext)).2).2
  exact h.comma_not_mem hparts hfirst hcomma

/-- A comma between a key and its equals sign, and one in front of the first key. -/
theorem mapLiteral_beyond_documented :
    (∃ n, readMapLiteral "%\x7ba,=1\x7d".toList = .done [.mk "a" (.number n)] []) ∧
      (∀ levels entries body, "%\x7ba,=1\x7d".toList = '%' :: '\x7b' :: body ++ ['\x7d'] →
        ¬ MapBody .documented levels true entries body) ∧
      (∃ n, readMapLiteral "%\x7b,a=1\x7d".toList = .done [.mk "a" (.number n)] []) ∧
      ∀ levels entries body, "%\x7b,a=1\x7d".toList = '%' :: '\x7b' :: body ++ ['\x7d'] →
        ¬ MapBody .documented levels true entries body := by
  have hbehind : "%\x7ba,=1\x7d".toList =
      '%' :: '\x7b' :: (['a', ','] ++ '=' :: ['1']) ++ ['\x7d'] := rfl
  have hleading : "%\x7b,a=1\x7d".toList =
      '%' :: '\x7b' :: ([',', 'a'] ++ '=' :: ['1']) ++ ['\x7d'] := rfl
  exact ⟨⟨_, rfl⟩, fun _ _ _ => not_documented_of_comma hbehind (by decide) (by decide),
    ⟨_, rfl⟩, fun _ _ _ => not_documented_of_comma hleading (by decide) (by decide)⟩

end Stencil.Template
