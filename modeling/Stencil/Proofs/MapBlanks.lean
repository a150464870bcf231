import Stencil.Proofs.ReferenceValues

/-! Blanks between the tokens of map literals. The spaces there may be replaced by runs of other
blanks. What comes of it depends on the place: behind an equals sign any blanks will do, in front of
one the first of them has to end the key, in front of a key only the delimiters of keys will do, and
behind the last entry only the default delimiters, one of which does not delimit keys. -/

namespace Stencil.Template

open Reader

/-- The second text is the first one with some of its spaces replaced, each by a run of blanks. -/
inductive Respaced : List Char → List Char → Prop where
  | nil : Respaced [] []
  | keep (c : Char) {text text' : List Char} (h : Respaced text text') :
      Respaced (c :: text) (c :: text')
  | replace {run text text' : List Char} (hblanks : IsBlankRun run) (hne : run ≠ [])
      (h : Respaced text text') : Respaced (' ' :: text) (run ++ text')

namespace Respaced

variable {text text' : List Char}

theorem refl (text : List Char) : Respaced text text := by
  induction text with
  | nil => exact .nil
  | cons c rest ih => exact .keep c ih

theorem mem_or_isBlank (h : Respaced text text') {c : Char} (hc : c ∈ text') :
    c ∈ text ∨ Text.isBlank c = true := by
  induction h with
  | nil => cases hc
  | keep d _ ih =>
      obtain rfl | hc := List.mem_cons.mp hc
      · exact .inl (List.mem_cons_self ..)
      · exact (ih hc).imp_left (List.mem_cons_of_mem d)
  | replace hblanks _ _ ih =>
      obtain hc | hc := List.mem_append.mp hc
      · exact .inr (hblanks c hc)
      · exact (ih hc).imp_left (List.mem_cons_of_mem ' ')

theorem isBlankRun (h : Respaced text text') (hblanks : IsBlankRun text) : IsBlankRun text' :=
  fun c hc => (h.mem_or_isBlank hc).elim (hblanks c) id

theorem eq_nil_iff (h : Respaced text text') : text = [] ↔ text' = [] := by
  cases h with
  | nil => exact Iff.rfl
  | keep c h => simp
  | replace _ hne _ => simp [hne]

/-- A text goes on as it did, behind its first character or behind a blank in place of a space. -/
theorem exists_cons {c : Char} {rest : List Char} (h : Respaced (c :: rest) text') :
    ∃ d run rest', text' = d :: (run ++ rest') ∧ IsBlankRun run ∧ Respaced rest rest' ∧
      (d = c ∨ Text.isBlank d = true) := by
  cases h with
  | keep _ h => exact ⟨c, [], _, rfl, List.forall_mem_nil _, h, .inl rfl⟩
  | @replace run _ rest' hblanks hne h =>
      obtain ⟨d, others, rfl⟩ := List.exists_cons_of_ne_nil hne
      obtain ⟨hd, hothers⟩ := List.forall_mem_cons.mp hblanks
      exact ⟨d, others, rest', rfl, hothers, h, .inr hd⟩

end Respaced

/-- What stands, in a text whose spaces were replaced, in front of a key, between a key and its
equals sign, and behind the last entry. -/
structure Spacing where
  front : List Char → Prop
  beforeEquals : List Char → Prop
  trailing : List Char → Prop

namespace Spacing

def any : Spacing where
  front _ := True
  beforeEquals _ := True
  trailing _ := True

/-- What is read as the spaces were. -/
def read : Spacing where
  front text := ∀ c ∈ text, keyDelimiters.contains c = true
  beforeEquals text := ∀ c ∈ text.head?, keyDelimiters.contains c = true
  trailing text := ∀ c ∈ text, Text.Tokens.defaultDelimiters.contains c = true

end Spacing

structure EntryGaps where
  front : List Char
  beforeEquals : List Char
  behindEquals : List Char

namespace EntryGaps

def text (g : EntryGaps) (key : Name) (behind : List Char) : List Char :=
  g.front ++ (key.val ++ (g.beforeEquals ++ '=' :: (g.behindEquals ++ behind)))

theorem all_text (g : EntryGaps) (key : Name) (behind : List Char) :
    (g.text key behind).all Text.Tokens.defaultDelimiters.contains = false := by
  rw [List.all_eq_false]
  exact ⟨'=', by simp [text], by decide⟩

/-- The gaps of an entry that is read, and the same gaps with their spaces replaced. -/
structure RespacedAs (s : Spacing) (first : Bool) (g g' : EntryGaps) : Prop where
  front : Punctuation.DelimiterGap first g.front
  beforeEquals : Punctuation.DelimiterEnd g.beforeEquals
  behindEquals : IsBlankRun g.behindEquals
  front' : Respaced g.front g'.front
  beforeEquals' : Respaced g.beforeEquals g'.beforeEquals
  behindEquals' : Respaced g.behindEquals g'.behindEquals
  spacedFront : s.front g'.front
  spacedBeforeEquals : s.beforeEquals g'.beforeEquals

end EntryGaps

/-- `RespacedBody s levels first entries text text'`: the first text has the entries, as the first
ones of a map or behind others, with maps up to that many levels inside each other. The second text
is the first one with spaces between the tokens replaced in the way that `s` tells. -/
inductive RespacedBody (s : Spacing) :
    Nat → Bool → List MapEntry → List Char → List Char → Prop where
  | nil {levels : Nat} {first : Bool} {blanks blanks' : List Char}
      (htrailing : Punctuation.accepted.trailing blanks) (hblanks : Respaced blanks blanks')
      (hs : s.trailing blanks') : RespacedBody s levels first [] blanks blanks'
  | scalar {levels : Nat} {first : Bool} {key : Name} {value : MapValue} {others : List MapEntry}
      {g g' : EntryGaps} {valueText rest rest' : List Char} (hgaps : g.RespacedAs s first g')
      (hcut : splitValue (valueText ++ rest) = .ok (valueText, rest))
      (hvalue : ScalarText (Inner.within levels) valueText value)
      (hothers : RespacedBody s levels false others rest rest') :
      RespacedBody s levels first (.mk key.text value :: others)
        (g.text key (valueText ++ rest)) (g'.text key (valueText ++ rest'))
  | nested {levels : Nat} {first : Bool} {key : Name} {inside others : List MapEntry}
      {g g' : EntryGaps} {body body' rest rest' : List Char} (hgaps : g.RespacedAs s first g')
      (hcut : splitValue ('\x7b' :: body ++ ['\x7d'] ++ rest) =
        .ok ('\x7b' :: body ++ ['\x7d'], rest))
      (hvalue : RespacedBody s levels true inside body body')
      (hothers : RespacedBody s (levels + 1) false others rest rest') :
      RespacedBody s (levels + 1) first (.mk key.text (.map inside) :: others)
        (g.text key ('\x7b' :: body ++ ['\x7d'] ++ rest))
        (g'.text key ('\x7b' :: body' ++ ['\x7d'] ++ rest'))

theorem isBlank_of_defaultDelimiter {c : Char}
    (h : Text.Tokens.defaultDelimiters.contains c = true) : Text.isBlank c = true :=
  List.all_eq_true.mp (rfl : Text.Tokens.defaultDelimiters.all Text.isBlank = true) c
    (List.contains_iff_mem.mp h)

theorem MapBody.respaced {levels : Nat} {first : Bool} {entries : List MapEntry}
    {text : List Char} (h : MapBody .accepted levels first entries text) :
    RespacedBody .any levels first entries text text := by
  have hgaps {first : Bool} {gap before after : List Char}
      (hgap : Punctuation.DelimiterGap first gap) (hbefore : Punctuation.DelimiterEnd before)
      (hafter : IsBlankRun after) :
      EntryGaps.RespacedAs .any first ⟨gap, before, after⟩ ⟨gap, before, after⟩ :=
    ⟨hgap, hbefore, hafter, .refl _, .refl _, .refl _, trivial, trivial⟩
  induction h with
  | nil htrailing => exact .nil htrailing (.refl _) trivial
  | scalar hgap hbefore hafter hcut hvalue _ ih =>
      exact .scalar (hgaps hgap hbefore hafter) hcut hvalue ih
  | nested hgap hbefore hafter hcut _ _ ihvalue ih =>
      exact .nested (hgaps hgap hbefore hafter) hcut ihvalue ih

namespace EntryGaps.RespacedAs

variable {s : Spacing} {first : Bool} {g g' : EntryGaps} (h : g.RespacedAs s first g')
include h

theorem nested (key : Name) {behind : List Char} (hbehind : Nested true behind) :
    Nested true (g'.text key behind) := by
  have hfront : Nested true g'.front := .of_forall fun c hc =>
    (h.front'.mem_or_isBlank hc).elim
      (fun hc => isPlain_of_keyDelimiter (h.front.delimiters c hc)) isPlain_of_isBlank
  have hbefore : Nested true g'.beforeEquals := .of_forall fun c hc =>
    (h.beforeEquals'.mem_or_isBlank hc).elim (h.beforeEquals.isPlain c) isPlain_of_isBlank
  have hbehindEquals : Nested true g'.behindEquals := .of_forall fun c hc =>
    isPlain_of_isBlank (h.behindEquals'.isBlankRun h.behindEquals c hc)
  have hvalue := Nested.plain (c := '=') rfl (hbehindEquals.append hbehind)
  exact hfront.append (key.nested.append (hbefore.append hvalue))

theorem separates (hfirst : first = false) (key : Name) (behind : List Char) :
    Template.separates (g'.text key behind) = true := by
  obtain ⟨c, others, hfront, hne⟩ := h.front.front hfirst
  have hc : keyDelimiters.contains c = true :=
    h.front.delimiters c (hfront ▸ List.mem_cons_self ..)
  obtain ⟨d, run, others', hfront', -, -, hd⟩ := (hfront ▸ h.front').exists_cons
  rw [EntryGaps.text, hfront', List.cons_append, Template.separates]
  obtain rfl | hd := hd
  · simp [keyDelimiters, hne] at hc
    rcases hc with rfl | rfl | rfl | rfl | rfl <;> rfl
  · rw [hd, Bool.true_or]

end EntryGaps.RespacedAs

theorem Punctuation.DelimiterEnd.delimiter_or_blank {before : List Char}
    (h : Punctuation.DelimiterEnd before) :
    ∀ c ∈ before, (keyDelimiters.contains c || Text.isBlank c) = true := by
  cases h with
  | bare => exact List.forall_mem_nil _
  | delimited hd _ hblanks =>
      refine List.forall_mem_cons.mpr ⟨by rw [hd, Bool.true_or], fun c hc => ?_⟩
      rw [hblanks c hc, Bool.or_true]

/-- Blanks in place of a space end a key as the space did, if the first of them is one that does. -/
theorem delimiterEnd_of_respaced {before before' : List Char}
    (hbefore : Punctuation.DelimiterEnd before) (h : Respaced before before')
    (hs : ∀ c ∈ before'.head?, keyDelimiters.contains c = true) :
    Punctuation.DelimiterEnd before' := by
  cases hbefore with
  | bare =>
      rw [h.eq_nil_iff.mp rfl]
      exact .bare
  | @delimited d blanks hd hne hblanks =>
      obtain ⟨d', run, blanks', rfl, hrun, hrest, hd'⟩ := h.exists_cons
      refine .delimited (hs d' rfl) ?_ (List.forall_mem_append.mpr ⟨hrun, hrest.isBlankRun hblanks⟩)
      rintro rfl
      exact hd'.elim (fun heq => hne heq.symm) (by decide)

namespace EntryGaps.RespacedAs

variable {first : Bool} {g g' : EntryGaps}

theorem isBlankRun {s : Spacing} (h : g.RespacedAs s first g') : IsBlankRun g'.behindEquals :=
  h.behindEquals'.isBlankRun h.behindEquals

variable (h : g.RespacedAs .read first g')
include h

theorem delimiterGap : Punctuation.DelimiterGap first g'.front := by
  refine ⟨h.spacedFront, fun hfirst => ?_⟩
  obtain ⟨c, others, hfront, hne⟩ := h.front.front hfirst
  obtain ⟨d, run, others', hfront', -, -, hd⟩ := (hfront ▸ h.front').exists_cons
  refine ⟨d, _, hfront', ?_⟩
  rintro rfl
  exact hd.elim (fun heq => hne heq.symm) (by decide)

theorem delimiterEnd : Punctuation.DelimiterEnd g'.beforeEquals :=
  delimiterEnd_of_respaced h.beforeEquals h.beforeEquals' h.spacedBeforeEquals

end EntryGaps.RespacedAs

theorem splitBare_nil_of_separates {depth : Nat} {rest rest' : List Char}
    (hcut : splitBare depth rest = ([], rest)) (hnil : rest = [] → rest' = [])
    (hrest : separates rest' = true) : splitBare depth rest' = ([], rest') := by
  cases rest with
  | nil =>
      rw [hnil rfl]
      rfl
  | cons c rest =>
      have hdepth : depth = 0 := by
        simp only [splitBare] at hcut
        split_ifs at hcut with hopen hclose hstop
        · cases hcut
        · cases hcut
        · exact eq_of_beq (Bool.and_eq_true _ _ ▸ hstop).1
        · cases hcut
      subst hdepth
      cases rest' with
      | nil => rfl
      | cons d rest' =>
          have hplain : ['\x7b', '(', '\x7d', ')'].contains d = false :=
            contains_eq_false (p := fun d => Text.isBlank d || d == ',') hrest (by decide)
          simp at hplain
          simp only [separates] at hrest
          simp [splitBare, hplain, hrest]

theorem splitBare_of_separates {depth : Nat} {value rest rest' : List Char}
    (hcut : splitBare depth (value ++ rest) = (value, rest)) (hnil : rest = [] → rest' = [])
    (hrest : separates rest' = true) : splitBare depth (value ++ rest') = (value, rest') := by
  obtain ⟨after, hopen, hends⟩ := splitBare_append_eq_iff.mp hcut
  exact splitBare_append_eq_iff.mpr ⟨after, hopen, splitBare_nil_of_separates hends hnil hrest⟩

theorem splitValue_bare {c : Char} (hc : ['\'', '"', '\x7b'].contains c = false)
    (text : List Char) : splitValue (c :: text) = .ok (splitBare 0 (c :: text)) := by
  simp at hc
  simp [splitValue, hc]

theorem splitValue_braced {body : List Char} (h : Passes body) (rest : List Char) :
    splitValue ('\x7b' :: body ++ ['\x7d'] ++ rest) = .ok ('\x7b' :: body ++ ['\x7d'], rest) := by
  rw [List.append_assoc, List.cons_append, List.singleton_append]
  simp [splitValue, h.splitAtBrace_eq rest]

theorem ScalarText.splitValue_of_separates {inner : Inner} {text rest rest' : List Char}
    {found : MapValue} (h : ScalarText inner text found)
    (hcut : splitValue (text ++ rest) = .ok (text, rest)) (hnil : rest = [] → rest' = [])
    (hrest : separates rest' = true) : splitValue (text ++ rest') = .ok (text, rest') := by
  have hbare (c : Char) (chars : List Char) (hc : ['\'', '"', '\x7b'].contains c = false)
      (hcut : splitValue (c :: chars ++ rest) = .ok (c :: chars, rest)) :
      splitValue (c :: chars ++ rest') = .ok (c :: chars, rest') := by
    rw [List.cons_append, splitValue_bare hc, ← List.cons_append] at hcut ⊢
    rw [splitBare_of_separates (Except.ok.inj hcut) hnil hrest]
  cases h with
  | @quoted quote body _ hquote _ =>
      have hbody := enclosed_of_splitValue hquote hcut
      have hopen : (quote == '\'' || quote == '"') = true := by simpa using hquote
      simp [splitValue, hopen, hbody.splitAtQuote_eq (quote_ne_backslash hquote)]
  | reference _ => exact hbare _ _ rfl hcut
  | number hnumeral =>
      obtain ⟨c, chars, rfl, hc⟩ := exists_cons_of_numeral? hnumeral
      exact hbare c chars (contains_eq_false hc rfl) hcut
  | boolean value =>
      cases value with
      | true => exact hbare 't' ['r', 'u', 'e'] rfl hcut
      | false => exact hbare 'f' ['a', 'l', 's', 'e'] rfl hcut

namespace RespacedBody

variable {s : Spacing} {levels : Nat} {first : Bool} {entries : List MapEntry}
  {text text' : List Char}

theorem anywhere (h : RespacedBody s levels first entries text text') :
    RespacedBody .any levels first entries text text' := by
  have hany {first : Bool} {g g' : EntryGaps} (hgaps : g.RespacedAs s first g') :
      g.RespacedAs .any first g' :=
    { hgaps with spacedFront := trivial, spacedBeforeEquals := trivial }
  induction h with
  | nil htrailing hblanks _ => exact .nil htrailing hblanks trivial
  | scalar hgaps hcut hvalue _ ih => exact .scalar (hany hgaps) hcut hvalue ih
  | nested hgaps hcut _ _ ihvalue ih => exact .nested (hany hgaps) hcut ihvalue ih

theorem eq_nil (h : RespacedBody s levels first entries text text') (hnil : text = []) :
    text' = [] := by
  cases h with
  | nil _ hblanks => exact hblanks.eq_nil_iff.mp hnil
  | scalar => simp [EntryGaps.text] at hnil
  | nested => simp [EntryGaps.text] at hnil

theorem separates (h : RespacedBody s levels false entries text text') :
    Template.separates text' = true := by
  cases h with
  | nil htrailing hblanks _ =>
      cases text with
      | nil =>
          rw [hblanks.eq_nil_iff.mp rfl]
          rfl
      | cons c blanks =>
          obtain ⟨d, run, blanks', rfl, -, -, hd⟩ := hblanks.exists_cons
          have hblank : Text.isBlank d = true := by
            obtain rfl | hd := hd
            · exact isBlank_of_defaultDelimiter (htrailing d (List.mem_cons_self ..))
            · exact hd
          rw [Template.separates, hblank, Bool.true_or]
  | scalar hgaps => exact hgaps.separates rfl _ _
  | nested hgaps => exact hgaps.separates rfl _ _

theorem nested_text' (h : RespacedBody s levels first entries text text') :
    Nested true text' := by
  induction h with
  | nil htrailing hblanks _ =>
      refine .of_forall fun c hc =>
        (hblanks.mem_or_isBlank hc).elim (fun hc => ?_) isPlain_of_isBlank
      exact isPlain_of_isBlank (isBlank_of_defaultDelimiter (htrailing c hc))
  | scalar hgaps hcut hvalue _ ih =>
      have hvalue := nested_of_scalarText ((Inner.takesNested_within _).reference true) hcut hvalue
      exact hgaps.nested _ (hvalue.append ih)
  | nested hgaps _ _ _ ihvalue ih =>
      exact hgaps.nested _ ((Nested.bracketed .braces ihvalue (.nil true)).append ih)

theorem passes (h : RespacedBody s levels first entries text text') : Passes text' :=
  h.nested_text'.passes

end RespacedBody

theorem RespacedBody.mapBody_text' {levels : Nat} {first : Bool} {entries : List MapEntry}
    {text text' : List Char} (h : RespacedBody .read levels first entries text text') :
    MapBody .accepted levels first entries text' := by
  induction h with
  | nil _ _ hs => exact .nil hs
  | @scalar levels first key value others g g' valueText rest rest' hgaps hcut hvalue hothers ih =>
      exact .scalar hgaps.delimiterGap hgaps.delimiterEnd hgaps.isBlankRun
        (hvalue.splitValue_of_separates hcut hothers.eq_nil hothers.separates) hvalue ih
  | nested hgaps hcut hvalue _ ihvalue ih =>
      exact .nested hgaps.delimiterGap hgaps.delimiterEnd hgaps.isBlankRun
        (splitValue_braced hvalue.passes _) ihvalue ih

def RefusedKey (inner : Inner) (text : List Char) : Prop :=
  ∃ fault, mapEntries inner text = .error fault ∧ fault.complaint = .keyNotIdentifier

theorem mapEntry_of_not_isIdentifier {text token after : List Char}
    (hmore : text.all Text.Tokens.defaultDelimiters.contains = false)
    (hsplit : Text.Tokens.split? keyDelimiters text = some (token, after))
    (htoken : isIdentifier token = false) (inner : Inner) :
    mapEntry inner text = .halt {
      complaint := .keyNotIdentifier
      location := { piece := token, behind := after.length } } := by
  simp [mapEntry, hmore, hsplit, htoken]

theorem mapEntries_of_halt {inner : Inner} {text : List Char} {fault : Fault}
    (h : mapEntry inner text = .halt fault) : mapEntries inner text = .error fault := by
  cases text with
  | nil => cases h
  | cons c rest => simp [mapEntries, many, manyWithin, h]

theorem mapEntries_of_done {inner : Inner} {text rest : List Char} {entry : MapEntry}
    (h : mapEntry inner text = .done entry rest) :
    mapEntries inner text = (mapEntries inner rest).map (entry :: ·) := by
  have hnil : Misses (mapEntry inner) [] := PlainMap.misses_mapEntry_iff.mpr (List.forall_mem_nil _)
  have hmany : many (mapEntry inner) text =
      Reader.bind (many (mapEntry inner)) (fun others => pure (entry :: others)) rest :=
    (advances_mapEntry inner).many_of_done hnil h
  simp only [mapEntries, hmany, Reader.bind]
  cases many (mapEntry inner) rest <;> rfl

namespace RefusedKey

variable {inner : Inner} {text : List Char}

theorem of_halt {fault : Fault} (h : mapEntry inner text = .halt fault)
    (hcomplaint : fault.complaint = .keyNotIdentifier) : RefusedKey inner text :=
  ⟨fault, mapEntries_of_halt h, hcomplaint⟩

theorem of_done {rest : List Char} {entry : MapEntry} (h : mapEntry inner text = .done entry rest)
    (hrest : RefusedKey inner rest) : RefusedKey inner text := by
  obtain ⟨fault, hentries, hcomplaint⟩ := hrest
  refine ⟨fault, ?_, hcomplaint⟩
  rw [mapEntries_of_done h, hentries]
  rfl

/-- A blank that does not delimit keys stands in a token in front of what is no blank. -/
theorem of_blank {gap run behind : List Char} {b : Char}
    (hgap : ∀ c ∈ gap, keyDelimiters.contains c = true)
    (hrun : ∀ c ∈ run, keyDelimiters.contains c = false) (hblank : Text.isBlank b = true)
    (hb : keyDelimiters.contains b = false)
    (hmore : (gap ++ (run ++ b :: behind)).all Text.Tokens.defaultDelimiters.contains = false) :
    RefusedKey inner (gap ++ (run ++ b :: behind)) := by
  have hstops : Stops keyDelimiters.contains (run ++ b :: behind) := by
    cases run with
    | nil => exact .cons hb _
    | cons c run => exact .cons (hrun c (List.mem_cons_self ..)) _
  have htoken :
      isIdentifier ((run ++ b :: behind).takeWhile (!keyDelimiters.contains ·)) = false := by
    rw [Bool.eq_false_iff]
    intro hkey
    have hmem : b ∈ (run ++ b :: behind).takeWhile (!keyDelimiters.contains ·) := by
      rw [List.takeWhile_append_of_pos fun c hc => by rw [hrun c hc]; rfl,
        List.takeWhile_cons_of_pos (by rw [hb]; rfl)]
      exact List.mem_append_right _ (List.mem_cons_self ..)
    have hbare : isBareChar b = true := @isBareChar_of_mem_name ⟨_, hkey⟩ b hmem
    exact Bool.false_ne_true ((isBlank_of_isBareChar hbare).symm.trans hblank)
  have hsplit := PlainMap.split?_of_stops hgap (by simp) hstops
  exact .of_halt (mapEntry_of_not_isIdentifier hmore hsplit htoken inner) rfl

end RefusedKey

theorem exists_append_of_not_forall {p : Char → Bool} {text : List Char}
    (h : ¬ ∀ c ∈ text, p c = true) :
    ∃ front b behind, text = front ++ b :: behind ∧ (∀ c ∈ front, p c = true) ∧ p b = false := by
  have hsome : (text.find? (!p ·)).isSome := by
    rw [List.find?_isSome]
    simpa using h
  obtain ⟨b, hfind⟩ := Option.isSome_iff_exists.mp hsome
  obtain ⟨hb, front, behind, htext, hfront⟩ := List.find?_eq_some_iff_append.mp hfind
  exact ⟨front, b, behind, htext, fun c hc => by simpa using hfront c hc, by simpa using hb⟩

theorem Respaced.isBlank_of_not_delimiter {gap gap' : List Char} (h : Respaced gap gap')
    (hgap : ∀ c ∈ gap, (keyDelimiters.contains c || Text.isBlank c) = true) {b : Char}
    (hmem : b ∈ gap') (hb : keyDelimiters.contains b = false) : Text.isBlank b = true := by
  obtain hmem | hblank := h.mem_or_isBlank hmem
  · have hgap := hgap b hmem
    rwa [hb, Bool.false_or] at hgap
  · exact hblank

namespace EntryGaps.RespacedAs

variable {first : Bool} {g g' : EntryGaps} (h : g.RespacedAs .any first g')
include h

theorem refused_of_front (hfront : ¬ ∀ c ∈ g'.front, keyDelimiters.contains c = true)
    (inner : Inner) (key : Name) (behind : List Char) :
    RefusedKey inner (g'.text key behind) := by
  obtain ⟨gap, b, others, hparts, hgap, hb⟩ := exists_append_of_not_forall hfront
  have hblank : Text.isBlank b = true := by
    refine h.front'.isBlank_of_not_delimiter (fun c hc => ?_) (by simp [hparts]) hb
    rw [h.front.delimiters c hc, Bool.true_or]
  have htext : g'.text key behind = gap ++ ([] ++ b :: (others ++ (key.val ++
      (g'.beforeEquals ++ '=' :: (g'.behindEquals ++ behind))))) := by
    simp [EntryGaps.text, hparts]
  have hmore := g'.all_text key behind
  rw [htext] at hmore ⊢
  exact .of_blank hgap (List.forall_mem_nil _) hblank hb hmore

theorem refused_of_beforeEquals (hfront : ∀ c ∈ g'.front, keyDelimiters.contains c = true)
    (hbefore : ¬ ∀ c ∈ g'.beforeEquals.head?, keyDelimiters.contains c = true)
    (inner : Inner) (key : Name) (behind : List Char) :
    RefusedKey inner (g'.text key behind) := by
  cases hparts : g'.beforeEquals with
  | nil => simp [hparts] at hbefore
  | cons b others =>
      have hb : keyDelimiters.contains b = false := by simpa [hparts] using hbefore
      have hblank : Text.isBlank b = true := by
        have hmem : b ∈ g'.beforeEquals := by simp [hparts]
        exact h.beforeEquals'.isBlank_of_not_delimiter h.beforeEquals.delimiter_or_blank hmem hb
      have hkey : ∀ c ∈ key.val, keyDelimiters.contains c = false := fun c hc =>
        contains_eq_false (isBareChar_of_mem_name hc) (by decide)
      have htext : g'.text key behind =
          g'.front ++ (key.val ++ b :: (others ++ '=' :: (g'.behindEquals ++ behind))) := by
        simp [EntryGaps.text, hparts]
      have hmore := g'.all_text key behind
      rw [htext] at hmore ⊢
      exact .of_blank hfront hkey hblank hb hmore

theorem read_or_refused (inner : Inner) (key : Name) (behind : List Char) :
    g.RespacedAs .read first g' ∨ RefusedKey inner (g'.text key behind) := by
  by_cases hfront : ∀ c ∈ g'.front, keyDelimiters.contains c = true
  · by_cases hbefore : ∀ c ∈ g'.beforeEquals.head?, keyDelimiters.contains c = true
    · exact .inl { h with spacedFront := hfront, spacedBeforeEquals := hbefore }
    · exact .inr (h.refused_of_beforeEquals hfront hbefore inner key behind)
  · exact .inr (h.refused_of_front hfront inner key behind)

end EntryGaps.RespacedAs

namespace EntryGaps.RespacedAs

variable {first : Bool} {g g' : EntryGaps} (h : g.RespacedAs .read first g')
include h

theorem entryCut {valueText rest : List Char}
    (hcut : splitValue (valueText ++ rest) = .ok (valueText, rest))
    (hfront : Stops Text.isBlank (valueText ++ rest)) (hrest : Template.separates rest = true) :
    EntryCut g'.front g'.beforeEquals g'.behindEquals valueText rest where
  gap := h.spacedFront
  before := h.delimiterEnd
  after := h.isBlankRun
  cut := hcut
  front := hfront
  rest := hrest

end EntryGaps.RespacedAs

theorem mapValue_braced (levels : Nat) (body : List Char) :
    mapValue (Inner.within (levels + 1)) ('\x7b' :: body ++ ['\x7d']) =
      ((mapEntries (Inner.within levels) body).mapError (Fault.before 1)).map .map := by
  change (bracedEntries (Inner.within levels) _).map MapValue.map = _
  rw [bracedEntries, withoutEnds_concat]

theorem refusedKey_of_trailing {blanks blanks' : List Char}
    (htrailing : Punctuation.accepted.trailing blanks) (hblanks : Respaced blanks blanks')
    (hs : ¬ Spacing.read.trailing blanks') (inner : Inner) : RefusedKey inner blanks' := by
  have hrun : IsBlankRun blanks' :=
    hblanks.isBlankRun fun c hc => isBlank_of_defaultDelimiter (htrailing c hc)
  have hmore : blanks'.all Text.Tokens.defaultDelimiters.contains = false := by
    rw [Bool.eq_false_iff]
    exact fun hall => hs (List.all_eq_true.mp hall)
  have hdelimiter : ¬ ∀ c ∈ blanks', keyDelimiters.contains c = true := by
    have hboth : keyDelimiters.all
        (fun d => !Text.isBlank d || Text.Tokens.defaultDelimiters.contains d) = true := rfl
    refine fun hall => hs fun c hc => ?_
    have hc' := List.all_eq_true.mp hboth c (List.contains_iff_mem.mp (hall c hc))
    rwa [hrun c hc, Bool.not_true, Bool.false_or] at hc'
  obtain ⟨gap, b, behind, rfl, hgap, hb⟩ := exists_append_of_not_forall hdelimiter
  have hblank : Text.isBlank b = true := hrun b (by simp)
  have hnone : ∀ c ∈ ([] : List Char), keyDelimiters.contains c = false := List.forall_mem_nil _
  exact .of_blank hgap hnone hblank hb hmore

/-- Blanks that are not read as the spaces were become part of a key, which is refused for them. -/
theorem RespacedBody.read_or_refused {levels : Nat} {first : Bool} {entries : List MapEntry}
    {text text' : List Char} (h : RespacedBody .any levels first entries text text') :
    RespacedBody .read levels first entries text text' ∨
      RefusedKey (Inner.within levels) text' := by
  induction h with
  | @nil levels first blanks blanks' htrailing hblanks _ =>
      by_cases hs : Spacing.read.trailing blanks'
      · exact .inl (.nil htrailing hblanks hs)
      · exact .inr (refusedKey_of_trailing htrailing hblanks hs _)
  | @scalar levels first key value others g g' valueText rest rest' hgaps hcut hvalue hothers ih =>
      obtain hread | hrefused := hgaps.read_or_refused (Inner.within levels) key
        (valueText ++ rest')
      · have hcut' := hvalue.splitValue_of_separates hcut hothers.eq_nil hothers.separates
        obtain ⟨c, chars, hchars, hblank⟩ := hvalue.front
        have hfront : Stops Text.isBlank (valueText ++ rest') := hchars ▸ .cons hblank _
        have hentry := (hread.entryCut hcut' hfront hothers.separates).mapEntry_eq
          (Inner.within levels) key
        rw [hvalue.mapValue_eq] at hentry
        obtain hrest | hrest := ih
        · exact .inl (.scalar hread hcut hvalue hrest)
        · exact .inr (.of_done hentry hrest)
      · exact .inr hrefused
  | @nested levels first key inside others g g' body body' rest rest' hgaps hcut hvalue hothers
      ihvalue ih =>
      obtain hread | hrefused := hgaps.read_or_refused (Inner.within (levels + 1)) key
        ('\x7b' :: body' ++ ['\x7d'] ++ rest')
      · have hcut' := splitValue_braced hvalue.passes rest'
        have hentry := (hread.entryCut hcut' (.cons (by decide) _) hothers.separates).mapEntry_eq
          (Inner.within (levels + 1)) key
        rw [mapValue_braced] at hentry
        obtain hinside | ⟨fault, hinside, hcomplaint⟩ := ihvalue
        · rw [mapEntries_eq_ok_iff.mpr hinside.mapBody_text'.rounds] at hentry
          obtain hrest | hrest := ih
          · exact .inl (.nested hread hcut hinside hrest)
          · exact .inr (.of_done hentry hrest)
        · rw [hinside] at hentry
          exact .inr (.of_halt hentry hcomplaint)
      · exact .inr hrefused

/-- With its spaces replaced, a literal that is read has the same entries exactly if all the blanks
stand where they are read. Otherwise a key is refused. -/
theorem respaced_literal_read {levels : Nat} {text rest : List Char} {entries : List MapEntry}
    (hread : mapLiteral (Inner.within levels) text = .done entries rest) :
    ∃ body, text = '%' :: '\x7b' :: body ++ '\x7d' :: rest ∧
      RespacedBody .any levels true entries body body ∧
      ∀ body', RespacedBody .any levels true entries body body' →
        let text' := '%' :: '\x7b' :: body' ++ '\x7d' :: rest
        (mapLiteral (Inner.within levels) text' = .done entries rest ↔
          RespacedBody .read levels true entries body body') ∧
        (¬ RespacedBody .read levels true entries body body' →
          ∃ fault, mapLiteral (Inner.within levels) text' = .halt fault ∧
            fault.complaint = .keyNotIdentifier) := by
  obtain ⟨body, htext, -, hbody⟩ := (mapLiteral_eq_done_iff ..).mp hread
  refine ⟨body, htext, hbody.respaced, fun body' h => ?_⟩
  have hbrace := h.passes.splitAtBrace_eq rest
  have hrefused (hnot : ¬ RespacedBody .read levels true entries body body') :
      ∃ fault, mapLiteral (Inner.within levels) ('%' :: '\x7b' :: body' ++ '\x7d' :: rest) =
        .halt fault ∧ fault.complaint = .keyNotIdentifier := by
    obtain ⟨fault, hentries, hcomplaint⟩ := h.read_or_refused.resolve_left hnot
    refine ⟨fault.before (rest.length + 1), ?_, hcomplaint⟩
    simp only [List.cons_append, mapLiteral, hbrace, hentries]
  refine ⟨⟨fun hdone => ?_, fun hread' => ?_⟩, hrefused⟩
  · by_contra hnot
    obtain ⟨fault, hhalt, -⟩ := hrefused hnot
    rw [hdone] at hhalt
    cases hhalt
  · exact (mapLiteral_eq_done_iff ..).mpr ⟨body', rfl, hbrace, hread'.mapBody_text'⟩

def oneAsA : List MapEntry :=
  [.mk "a" (.number one)]

theorem respaced_oneAsA {s : Spacing} {g g' : EntryGaps} {blanks blanks' : List Char}
    (hgaps : g.RespacedAs s true g')
    (hcut : splitValue ('1' :: blanks) = .ok (['1'], blanks))
    (hbehind : RespacedBody s maxNesting false [] blanks blanks') :
    RespacedBody s maxNesting true oneAsA (g.text ⟨['a'], rfl⟩ ('1' :: blanks))
      (g'.text ⟨['a'], rfl⟩ ('1' :: blanks')) :=
  @RespacedBody.scalar s maxNesting true ⟨['a'], rfl⟩ _ [] g g' ['1'] blanks blanks' hgaps hcut
    (.number rfl) hbehind

/-- Other blanks in all places: a tab in front of the key, a line feed and a vertical tab in front
of the equals sign, a space that does not break behind it, and a form feed behind the entry. -/
theorem respaced_of_all_gaps :
    RespacedBody .read maxNesting true oneAsA " a = 1 ".toList
      "\ta\n\x0b=\u00a01\x0c".toList := by
  have hspace : Punctuation.accepted.trailing [' '] :=
    List.forall_mem_singleton.mpr (by decide)
  have hrespaced {run : List Char} (hblanks : IsBlankRun run) (hne : run ≠ []) :
      Respaced [' '] run := by
    simpa using Respaced.replace hblanks hne .nil
  have hgaps : EntryGaps.RespacedAs .read true ⟨[' '], [' '], [' ']⟩
      ⟨['\t'], ['\n', '\x0b'], ['\u00a0']⟩ := {
    front := ⟨List.forall_mem_singleton.mpr rfl, fun hlater => by cases hlater⟩
    beforeEquals := .delimited (by decide) (by decide) (List.forall_mem_nil _)
    behindEquals := by simp [IsBlankRun, Text.isBlank]
    front' := hrespaced (by simp [IsBlankRun, Text.isBlank]) (List.cons_ne_nil _ _)
    beforeEquals' := hrespaced (by simp [IsBlankRun, Text.isBlank]) (List.cons_ne_nil _ _)
    behindEquals' := hrespaced (by simp [IsBlankRun, Text.isBlank]) (List.cons_ne_nil _ _)
    spacedFront := by simp [Spacing.read, keyDelimiters]
    spacedBeforeEquals := by simp [Spacing.read, keyDelimiters] }
  have hbehind : RespacedBody .read maxNesting false [] [' '] ['\x0c'] :=
    .nil hspace (hrespaced (by simp [IsBlankRun, Text.isBlank]) (List.cons_ne_nil _ _))
      (by simp [Spacing.read, Text.Tokens.defaultDelimiters])
  exact respaced_oneAsA hgaps rfl hbehind

theorem respaced_literal_read_all_gaps :
    mapLiteral (Inner.within maxNesting) "%\x7b a = 1 \x7d".toList =
        .done oneAsA [] ∧
      mapLiteral (Inner.within maxNesting) "%\x7b\ta\n\x0b=\u00a01\x0c\x7d".toList =
        .done oneAsA [] := by
  have hread : mapLiteral (Inner.within maxNesting) "%\x7b a = 1 \x7d".toList =
      .done oneAsA [] := rfl
  obtain ⟨body, htext, -, hbody⟩ := respaced_literal_read hread
  have hsame : " a = 1 ".toList = body :=
    List.append_cancel_right (List.cons.inj (List.cons.inj htext).2).2
  subst hsame
  exact ⟨hread, (hbody _ respaced_of_all_gaps.anywhere).1.mpr respaced_of_all_gaps⟩

/-- A form feed in place of the space in front of a key. -/
theorem form_feed_spoils_key :
    RespacedBody .any maxNesting true oneAsA " a=1".toList
        "\x0ca=1".toList ∧
      readMapLiteral "%\x7b a=1\x7d".toList = .done oneAsA [] ∧
      ∃ fault, readMapLiteral "%\x7b\x0ca=1\x7d".toList = .halt fault ∧
        fault.complaint = .keyNotIdentifier := by
  have hblank : IsBlankRun ['\x0c'] := by simp [IsBlankRun, Text.isBlank]
  have hgaps : EntryGaps.RespacedAs .any true ⟨[' '], [], []⟩ ⟨['\x0c'], [], []⟩ := {
    front := ⟨List.forall_mem_singleton.mpr rfl, fun hlater => by cases hlater⟩
    beforeEquals := .bare
    behindEquals := List.forall_mem_nil _
    front' := by simpa using Respaced.replace hblank (List.cons_ne_nil _ _) .nil
    beforeEquals' := .nil
    behindEquals' := .nil
    spacedFront := trivial
    spacedBeforeEquals := trivial }
  have hbehind : RespacedBody .any maxNesting false [] [] [] :=
    .nil (List.forall_mem_nil _) .nil trivial
  exact ⟨respaced_oneAsA hgaps rfl hbehind, rfl, _, rfl, rfl⟩

end Stencil.Template
