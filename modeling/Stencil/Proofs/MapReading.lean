import Stencil.Proofs.PlainMap
import Stencil.Template.Parse

namespace Stencil.Template

open Reader

theorem quote_ne_backslash {quote : Char} (hquote : quote = '\'' ∨ quote = '"') :
    quote ≠ '\\' := by
  intro heq
  cases heq
  exact absurd hquote (by decide)

theorem ne_backslash {c : Char} {rest : List Char} (hlone : c = '\\' → rest = [] → False)
    (hslash : ∀ d others, c = '\\' → rest = d :: others → False) : c ≠ '\\' := by
  rintro rfl
  cases rest with
  | nil => exact hlone rfl rfl
  | cons d others => exact hslash d others rfl rfl

theorem withoutEnds_concat (first last : Char) (text : List Char) :
    withoutEnds (first :: text ++ [last]) = text := by
  simp [withoutEnds]

/-- The scan for a closing brace goes over the text and on behind it at the same depth. -/
def Passes (text : List Char) : Prop :=
  ∀ depth rest body after, splitAtBrace depth none rest = some (body, after) →
    splitAtBrace depth none (text ++ rest) = some (text ++ body, after)

def isBraceActive (c : Char) : Bool :=
  ['\\', '\'', '"', '\x7b', '\x7d'].contains c

namespace Passes

theorem nil : Passes [] :=
  fun _ _ _ _ h => h

theorem append {front back : List Char} (hfront : Passes front) (hback : Passes back) :
    Passes (front ++ back) := by
  intro depth rest body after h
  rw [List.append_assoc, List.append_assoc]
  exact hfront _ _ _ _ (hback _ _ _ _ h)

theorem cons {c : Char} {text : List Char} (hc : isBraceActive c = false) (h : Passes text) :
    Passes (c :: text) := by
  intro depth rest body after hrest
  have hnext := h depth rest body after hrest
  simp [isBraceActive] at hc
  cases depth <;> simp [splitAtBrace, hc, hnext]

theorem of_forall {text : List Char} (h : ∀ c ∈ text, isBraceActive c = false) :
    Passes text := by
  induction text with
  | nil => exact .nil
  | cons c rest ih =>
      obtain ⟨hc, hrest⟩ := List.forall_mem_cons.mp h
      exact .cons hc (ih hrest)

theorem braced {text : List Char} (h : Passes text) :
    Passes ('\x7b' :: text ++ ['\x7d']) := by
  intro depth rest body after hrest
  have hclose : splitAtBrace (depth + 1) none ('\x7d' :: rest) = some ('\x7d' :: body, after) := by
    simp [splitAtBrace, hrest]
  have hinner := h (depth + 1) _ _ _ hclose
  cases depth <;> simp [splitAtBrace, hinner]

theorem quoted {quote : Char} {body : List Char}
    (hquote : quote = '\'' ∨ quote = '"') (h : Enclosed quote body) :
    Passes (quote :: body ++ [quote]) := by
  intro depth rest inside after hrest
  have hslash := quote_ne_backslash hquote
  have hbody : splitAtBrace depth (some quote) (body ++ quote :: rest) =
      some (body ++ quote :: inside, after) := by
    induction h with
    | nil => simp [splitAtBrace, hslash, hrest]
    | plain hslash' hne _ ih => simp [splitAtBrace, hslash', hne, ih]
    | escape _ _ ih => simp [splitAtBrace, ih]
  cases depth <;> simp [splitAtBrace, hslash, hquote, hbody]

theorem splitAtBrace_eq {text : List Char} (h : Passes text) (rest : List Char) :
    splitAtBrace 0 none (text ++ '\x7d' :: rest) = some (text, rest) := by
  have hclose : splitAtBrace 0 none ('\x7d' :: rest) = some ([], rest) := by
    simp [splitAtBrace]
  have := h 0 _ _ _ hclose
  rwa [List.append_nil] at this

end Passes

def isBareChar (c : Char) : Bool :=
  isIdentifierChar c || c == '-'

theorem isBlank_of_isBareChar {c : Char} (h : isBareChar c = true) : Text.isBlank c = false := by
  have hrange : 0x2D ≤ c.toNat ∧ c.toNat ≤ 0x7A := by
    simp only [isBareChar, isIdentifierChar, Char.isAlphanum, isAlpha_eq, Char.isDigit,
      Bool.or_eq_true, Bool.and_eq_true, decide_eq_true_eq, beq_iff_eq,
      UInt32.le_iff_toNat_le] at h
    rcases h with (((h | h) | h) | rfl) | rfl
    · simp at h
      omega
    · simp at h
      omega
    · simp at h
      omega
    · decide
    · decide
  simp [Text.isBlank]
  omega

theorem isBraceActive_of_isBareChar {c : Char} (h : isBareChar c = true) :
    isBraceActive c = false :=
  contains_eq_false h rfl

theorem isBareChar_of_mem_name {name : Name} {c : Char} (h : c ∈ name.val) :
    isBareChar c = true := by
  obtain ⟨d, rest, hname, hd, hrest⟩ := isIdentifier_iff.mp name.property
  rw [hname] at h
  rcases List.mem_cons.mp h with rfl | hmem
  · simp only [isIdentifierStart, Bool.or_eq_true] at hd
    simp only [isBareChar, isIdentifierChar, Char.isAlphanum, Bool.or_eq_true]
    tauto
  · simp [isBareChar, hrest c hmem]

def Bare (text : List Char) : Prop :=
  text ≠ [] ∧ ∀ c ∈ text, isBareChar c = true

theorem bare_spelling (n : IntegerLiteral) : Bare n.spelling := by
  have hdigit : ∀ c ∈ Nat.toDigits 10 n.value.natAbs, isBareChar c = true := by
    intro c hc
    simp [isBareChar, isIdentifierChar, Char.isAlphanum, Numeral.isDigit_of_mem_toDigits hc]
  rcases n.spelling_cases with hs | ⟨c, rest, hs, -, hrest⟩
  · rw [hs]
    exact ⟨List.cons_ne_nil _ _, List.forall_mem_cons.mpr ⟨by decide, hdigit⟩⟩
  · rw [hs, hrest]
    exact ⟨Nat.toDigits_ne_nil, hdigit⟩

theorem bare_toString (value : Bool) : Bare (toString value).toList := by
  cases value with
  | true => exact ⟨by decide, List.all_eq_true.mp (by decide)⟩
  | false => exact ⟨by decide, List.all_eq_true.mp (by decide)⟩

theorem splitBare_eq {text rest : List Char} (h : ∀ c ∈ text, isBareChar c = true)
    (hrest : separates rest = true) : splitBare 0 (text ++ rest) = (text, rest) := by
  induction text with
  | nil =>
      cases rest with
      | nil => rfl
      | cons c rest =>
          have hbracket : ['\x7b', '(', '\x7d', ')'].contains c = false :=
            contains_eq_false (p := fun c => Text.isBlank c || c == ',') hrest (by decide)
          simp only [separates] at hrest
          simp at hbracket
          simp [splitBare, hbracket, hrest]
  | cons c text ih =>
      obtain ⟨hc, htext⟩ := List.forall_mem_cons.mp h
      have hblank := isBlank_of_isBareChar hc
      have hother : ['\x7b', '(', '\x7d', ')', ','].contains c = false :=
        contains_eq_false hc rfl
      simp at hother
      simp [splitBare, hother, hblank, ih htext]

/-- The value text is taken as a whole, is not trimmed and means the value found. -/
structure ReadsValue (inner : Inner) (text : List Char) (found : MapValue) : Prop where
  front : ∃ c rest, text = c :: rest ∧ Text.isBlank c = false
  split : ∀ rest, separates rest = true → splitValue (text ++ rest) = .ok (text, rest)
  read : mapValue inner text = .ok found

namespace ReadsValue

variable {inner : Inner}

theorem quoted {quote : Char} {content raw : List Char}
    (hplain : ∀ c ∈ content, isMarker c = false) (hquote : quote = '\'' ∨ quote = '"')
    (h : Escaped quote content raw) :
    ReadsValue inner (quote :: raw ++ [quote]) (.text (plainNodes content)) := by
  have hslash := quote_ne_backslash hquote
  refine ⟨⟨quote, raw ++ [quote], rfl, ?_⟩, ?_, ?_⟩
  · rcases hquote with rfl | rfl <;> decide
  · intro rest _
    have hopen : (quote == '\'' || quote == '"') = true := by simpa using hquote
    rw [List.append_assoc, List.cons_append, List.singleton_append]
    simp only [splitValue, hopen, if_true, h.enclosed.splitAtQuote_eq hslash rest]
  · have hends : unescape (withoutEnds (quote :: raw ++ [quote])) = content := by
      rw [withoutEnds_concat, h.unescape_eq]
    rw [List.cons_append] at hends ⊢
    rcases hquote with rfl | rfl <;>
      simp only [mapValue, hends, wholly_nodeSequence_plain inner hplain]

theorem braced {text : List Char} {entries : List MapEntry} (h : Passes text)
    (hread : inner.braced ('\x7b' :: text ++ ['\x7d']) = .ok entries) :
    ReadsValue inner ('\x7b' :: text ++ ['\x7d']) (.map entries) := by
  refine ⟨⟨'\x7b', text ++ ['\x7d'], rfl, by decide⟩, ?_, ?_⟩
  · intro rest _
    rw [List.append_assoc, List.cons_append, List.singleton_append]
    simp [splitValue, h.splitAtBrace_eq rest]
  · change (inner.braced _).map MapValue.map = _
    rw [hread]
    rfl

theorem bare {text : List Char} {found : MapValue} (h : Bare text)
    (hread : mapValue inner text = .ok found) : ReadsValue inner text found := by
  obtain ⟨hne, hall⟩ := h
  obtain ⟨c, others, rfl⟩ := List.exists_cons_of_ne_nil hne
  have hc := hall c (List.mem_cons_self ..)
  refine ⟨⟨c, others, rfl, isBlank_of_isBareChar hc⟩, ?_, hread⟩
  intro rest hrest
  have hother : ['\'', '"', '\x7b'].contains c = false := contains_eq_false hc rfl
  simp at hother
  rw [← splitBare_eq hall hrest]
  simp [splitValue, hother]

theorem integer (n : IntegerLiteral) : ReadsValue inner n.spelling (.number n.number) := by
  refine bare (bare_spelling n) ?_
  have hnumeral := numeral?_spelling n
  obtain ⟨c, others, hs, hc⟩ := spelling_eq_cons n
  have hother : ['\'', '"', '\x7b', '$', 't', 'f'].contains c = false :=
    contains_eq_false hc rfl
  simp at hother
  rw [hs] at hnumeral ⊢
  simp [mapValue, hother, hnumeral]

theorem boolean (value : Bool) :
    ReadsValue inner (toString value).toList (.boolean value) := by
  refine bare (bare_toString value) ?_
  cases value <;> rfl

theorem scalar {s : Scalar} {text : List Char} (h : s.Written text) :
    ReadsValue inner text s.literal := by
  cases h with
  | text hplain hquote hraw => exact quoted hplain hquote hraw
  | integer n => exact integer n
  | boolean value => exact boolean value

end ReadsValue

namespace PlainMap

theorem Gap.mem_keyDelimiters {first : Bool} {gap : List Char} (h : Gap first gap) :
    ∀ c ∈ gap, keyDelimiters.contains c = true := by
  have hblank : ∀ c, Text.isLayout c = true → keyDelimiters.contains c = true := by
    intro c hc
    exact of_isLayout hc rfl
  cases h with
  | leading h => exact fun c hc => hblank c (h c hc)
  | blanks h _ => exact fun c hc => hblank c (h c hc)
  | comma hbefore hafter =>
      intro c hc
      rcases List.mem_append.mp hc with hmem | hmem
      · exact hblank c (hbefore c hmem)
      · rcases List.mem_cons.mp hmem with rfl | hmem
        · decide
        · exact hblank c (hafter c hmem)

theorem split?_of_stops {delimiters gap text : List Char}
    (hgap : ∀ c ∈ gap, delimiters.contains c = true) (hne : text ≠ [])
    (hstops : Stops delimiters.contains text) :
    Text.Tokens.split? delimiters (gap ++ text) =
      some (text.takeWhile (!delimiters.contains ·), text.dropWhile (!delimiters.contains ·)) := by
  obtain ⟨c, rest, rfl⟩ := List.exists_cons_of_ne_nil hne
  have hc : (!delimiters.contains c) = true := by rw [hstops c rfl]; rfl
  rw [Text.Tokens.split?, hstops.dropWhile_append hgap]
  simp only [List.takeWhile_cons, List.dropWhile_cons, hc, if_true]

theorem split?_key {gap rest : List Char} (key : Name)
    (hgap : ∀ c ∈ gap, keyDelimiters.contains c = true)
    (hrest : Stops (!keyDelimiters.contains ·) rest) :
    Text.Tokens.split? keyDelimiters (gap ++ (key.val ++ rest)) = some (key.val, rest) := by
  have hkey : ∀ c ∈ key.val, keyDelimiters.contains c = false := fun c hc =>
    contains_eq_false (isBareChar_of_mem_name hc) (by decide)
  have hkey' : ∀ c ∈ key.val, (!keyDelimiters.contains c) = true := fun c hc => by
    rw [hkey c hc]
    rfl
  obtain ⟨c, others, hname, -, -⟩ := isIdentifier_iff.mp key.property
  have hne : key.val ++ rest ≠ [] := by simp [hname]
  have hfront : Stops keyDelimiters.contains (key.val ++ rest) := by
    rw [hname]
    exact .cons (hkey c (hname ▸ List.mem_cons_self ..)) _
  rw [split?_of_stops hgap hne hfront, hrest.takeWhile_append hkey', hrest.dropWhile_append hkey']

theorem trimStart_append {blanks rest : List Char} (h : IsLayoutRun blanks)
    (hrest : Stops Text.isBlank rest) : Text.trimStart (blanks ++ rest) = rest :=
  hrest.dropWhile_append fun c hc => Text.isBlank_of_isLayout (h c hc)

theorem afterEquals?_append {blanks : List Char} (h : IsLayoutRun blanks) (rest : List Char) :
    afterEquals? (blanks ++ '=' :: rest) = some rest := by
  cases blanks with
  | nil => rfl
  | cons b blanks =>
      obtain ⟨hb, hblanks⟩ := List.forall_mem_cons.mp h
      have htrim : Text.trimStart (blanks ++ '=' :: rest) = '=' :: rest :=
        trimStart_append hblanks (.cons rfl rest)
      rw [List.cons_append, afterEquals?, List.tail_cons, htrim]
      · rfl
      · intro _ heq
        cases heq
        exact absurd hb (by decide)

/-- An entry in its parts: delimiters, the key, what leads up to the equals sign, and the value
behind it, which the scanner cuts out whole. -/
theorem mapEntry_parts {inner : Inner} {key : Name} {gap before raw valueText rest : List Char}
    (hgap : ∀ c ∈ gap, keyDelimiters.contains c = true)
    (hstops : Stops (!keyDelimiters.contains ·) (before ++ '=' :: raw))
    (hequals : afterEquals? (before ++ '=' :: raw) = some raw)
    (hcut : splitValue (Text.trimStart raw) = .ok (valueText, rest))
    (hrest : separates rest = true) :
    mapEntry inner (gap ++ (key.val ++ (before ++ '=' :: raw))) =
      match mapValue inner valueText with
      | .ok found => .done (.mk key.text found) rest
      | .error fault => .halt (fault.before rest.length) := by
  have hnonempty : (gap ++ (key.val ++ (before ++ '=' :: raw))).all
      Text.Tokens.defaultDelimiters.contains = false := by
    rw [List.all_eq_false]
    exact ⟨'=', by simp, by decide⟩
  rw [mapEntry, if_neg (Bool.eq_false_iff.mp hnonempty), split?_key key hgap hstops]
  simp only [key.property, Bool.not_true, Bool.false_eq_true, if_false, hequals, hcut, hrest]
  rfl

theorem mapEntry_of_parts {inner : Inner} {key : Name}
    {gap before raw valueText rest : List Char} {found : MapValue}
    (hgap : ∀ c ∈ gap, keyDelimiters.contains c = true)
    (hstops : Stops (!keyDelimiters.contains ·) (before ++ '=' :: raw))
    (hequals : afterEquals? (before ++ '=' :: raw) = some raw)
    (hcut : splitValue (Text.trimStart raw) = .ok (valueText, rest))
    (hrest : separates rest = true) (hvalue : mapValue inner valueText = .ok found) :
    mapEntry inner (gap ++ (key.val ++ (before ++ '=' :: raw))) =
      .done (.mk key.text found) rest := by
  rw [mapEntry_parts hgap hstops hequals hcut hrest, hvalue]

theorem mapEntry_eq {inner : Inner} {key : Name} {gap before after valueText rest : List Char}
    {first : Bool} {found : MapValue} (hgap : Gap first gap) (hbefore : IsLayoutRun before)
    (hafter : IsLayoutRun after) (hvalue : ReadsValue inner valueText found)
    (hrest : separates rest = true) :
    mapEntry inner (gap ++ (key.val ++ (before ++ '=' :: (after ++ (valueText ++ rest))))) =
      .done (.mk key.text found) rest := by
  have hstops : Stops (!keyDelimiters.contains ·)
      (before ++ '=' :: (after ++ (valueText ++ rest))) := by
    cases before with
    | nil => exact .cons rfl _
    | cons b before =>
        refine .cons ?_ _
        rw [(Gap.leading hbefore).mem_keyDelimiters b (List.mem_cons_self ..)]
        rfl
  have hfront : Stops Text.isBlank (valueText ++ rest) := by
    obtain ⟨c, others, hchars, hc⟩ := hvalue.front
    rw [hchars]
    exact .cons hc _
  have hcut : splitValue (Text.trimStart (after ++ (valueText ++ rest))) =
      .ok (valueText, rest) := by
    rw [trimStart_append hafter hfront, hvalue.split rest hrest]
  exact mapEntry_of_parts hgap.mem_keyDelimiters hstops (afterEquals?_append hbefore _) hcut hrest
    hvalue.read

theorem separates_cons_of_isLayout {c : Char} (h : Text.isLayout c = true) (rest : List Char) :
    separates (c :: rest) = true := by
  simp [separates, Text.isBlank_of_isLayout h]

theorem Gap.separates {gap : List Char} (h : Gap false gap) (rest : List Char) :
    separates (gap ++ rest) = true := by
  cases h with
  | @blanks blanks h hne =>
      obtain ⟨b, others, rfl⟩ := List.exists_cons_of_ne_nil hne
      exact separates_cons_of_isLayout (h b (List.mem_cons_self ..)) _
  | @comma before after hbefore _ =>
      cases before with
      | nil => rfl
      | cons b before => exact separates_cons_of_isLayout (hbefore b (List.mem_cons_self ..)) _

theorem Written.separates {m : PlainMap} {text : List Char} (h : Written false m text) :
    separates text = true := by
  cases h with
  | nil _ h =>
      cases text with
      | nil => rfl
      | cons b blanks => exact separates_cons_of_isLayout (h b (List.mem_cons_self ..)) _
  | scalar hgap => exact hgap.separates _
  | nested hgap => exact hgap.separates _

theorem IsLayoutRun.passes {blanks : List Char} (h : IsLayoutRun blanks) : Passes blanks :=
  .of_forall fun c hc => contains_eq_false (h c hc) rfl

theorem passes_entry {first : Bool} {key : Name} {gap before after valueText rest : List Char}
    (hgap : Gap first gap) (hbefore : IsLayoutRun before) (hafter : IsLayoutRun after)
    (hvalue : Passes valueText) (hrest : Passes rest) :
    Passes (gap ++ (key.val ++ (before ++ '=' :: (after ++ (valueText ++ rest))))) := by
  have hgap' : Passes gap :=
    .of_forall fun c hc => contains_eq_false (hgap.mem_keyDelimiters c hc) (by decide)
  have hkey : Passes key.val :=
    .of_forall fun c hc => isBraceActive_of_isBareChar (isBareChar_of_mem_name hc)
  have hbehind : Passes ('=' :: (after ++ (valueText ++ rest))) :=
    .cons rfl (hafter.passes.append (hvalue.append hrest))
  exact hgap'.append (hkey.append (hbefore.passes.append hbehind))

theorem scalar_passes {s : Scalar} {text : List Char} (h : s.Written text) :
    Passes text := by
  cases h with
  | text _ hquote hraw => exact .quoted hquote hraw.enclosed
  | integer n => exact .of_forall fun c hc => isBraceActive_of_isBareChar ((bare_spelling n).2 c hc)
  | boolean value =>
      exact .of_forall fun c hc => isBraceActive_of_isBareChar ((bare_toString value).2 c hc)

theorem Written.passes {first : Bool} {m : PlainMap} {text : List Char}
    (h : Written first m text) : Passes text := by
  induction h with
  | nil _ h => exact h.passes
  | scalar hgap hbefore hafter hvalue _ ih =>
      exact passes_entry hgap hbefore hafter (scalar_passes hvalue) ih
  | nested hgap hbefore hafter _ _ ihvalue ih =>
      exact passes_entry hgap hbefore hafter ihvalue.braced ih

theorem misses_mapEntry_iff {inner : Inner} {text : List Char} :
    Misses (mapEntry inner) text ↔ ∀ c ∈ text, Text.Tokens.defaultDelimiters.contains c = true := by
  rw [← List.all_eq_true]
  refine ⟨fun ⟨fault, h⟩ => ?_, fun h => misses_of_eq (if_pos h)⟩
  simp only [mapEntry] at h
  split at h
  · assumption
  · split at h
    · cases h
    · split at h
      · cases h
      · split at h
        · cases h
        · split at h
          · cases h
          · split at h
            · cases h
            · split at h <;> cases h

theorem misses_mapEntry {inner : Inner} {blanks : List Char} (h : IsLayoutRun blanks) :
    Misses (mapEntry inner) blanks :=
  misses_mapEntry_iff.mpr fun c hc => of_isLayout (h c hc) rfl

theorem mapEntries_of_rounds {inner : Inner} {text rest : List Char} {entries : List MapEntry}
    (h : Rounds (mapEntry inner) text entries rest) : mapEntries inner text = .ok entries := by
  simp only [mapEntries, h.many_eq]

theorem rounds_cons {inner : Inner} {first : Bool} {key : Name}
    {gap before after valueText rest final : List Char} {found : MapValue}
    {others : List MapEntry} (hgap : Gap first gap) (hbefore : IsLayoutRun before)
    (hafter : IsLayoutRun after) (hvalue : ReadsValue inner valueText found)
    (hrest : separates rest = true) (hothers : Rounds (mapEntry inner) rest others final) :
    Rounds (mapEntry inner)
      (gap ++ (key.val ++ (before ++ '=' :: (after ++ (valueText ++ rest)))))
      (.mk key.text found :: others) final := by
  refine .round (mapEntry_eq hgap hbefore hafter hvalue hrest) ?_ hothers
  simp only [List.length_append, List.length_cons]
  omega

theorem Written.rounds {first : Bool} {m : PlainMap} {text : List Char}
    (h : Written first m text) {levels : Nat} (hdepth : m.depth ≤ levels) :
    ∃ blanks, Rounds (mapEntry (Inner.within levels)) text m.literal blanks := by
  induction h generalizing levels with
  | nil _ h => exact ⟨_, .stop (misses_mapEntry h)⟩
  | scalar hgap hbefore hafter hvalue hrest ih =>
      obtain ⟨blanks, hrounds⟩ := ih hdepth
      exact ⟨blanks, rounds_cons hgap hbefore hafter (.scalar hvalue) hrest.separates hrounds⟩
  | @nested first key value rest gap before after valueText restText hgap hbefore hafter hvalue
      hrest ihvalue ih =>
      obtain ⟨hinner, hdepth⟩ := Nat.max_le.mp hdepth
      cases levels with
      | zero => exact absurd hinner (Nat.not_succ_le_zero _)
      | succ inside =>
          obtain ⟨_, hentries⟩ := ihvalue (Nat.le_of_succ_le_succ hinner)
          obtain ⟨blanks, hrounds⟩ := ih hdepth
          have hbraced : (Inner.within (inside + 1)).braced ('\x7b' :: valueText ++ ['\x7d']) =
              .ok value.literal := by
            change bracedEntries (Inner.within inside) _ = _
            rw [bracedEntries, withoutEnds_concat, mapEntries_of_rounds hentries]
            rfl
          exact ⟨blanks, rounds_cons hgap hbefore hafter (.braced hvalue.passes hbraced)
            hrest.separates hrounds⟩

end PlainMap

theorem mapLiteral_written {m : PlainMap} {text : List Char} (h : m.Written true text)
    {levels : Nat} (hdepth : m.depth ≤ levels) (rest : List Char) :
    mapLiteral (Inner.within levels) ('%' :: '\x7b' :: text ++ '\x7d' :: rest) =
      .done m.literal rest := by
  obtain ⟨_, hentries⟩ := h.rounds hdepth
  simp only [List.cons_append, mapLiteral, h.passes.splitAtBrace_eq rest,
    PlainMap.mapEntries_of_rounds hentries]

theorem readMapLiteral_written {m : PlainMap} (hdistinct : m.Distinct)
    (hdepth : m.depth ≤ maxNesting) {text : List Char} (h : m.Written true text) :
    (∀ rest, readMapLiteral ('%' :: '\x7b' :: text ++ '\x7d' :: rest) = .done m.literal rest) ∧
      ∀ setting scope, (Expr.map m.literal).eval setting scope = (.ok (.map m.entries), scope) := by
  refine ⟨fun rest => mapLiteral_written h hdepth rest, fun setting scope => ?_⟩
  have hentries : evalEntries setting [] m.literal scope = (.ok m.entries, scope) :=
    PlainMap.evalEntries_literal setting hdistinct (fun _ _ => List.not_mem_nil) scope
  rw [Expr.eval, Eval.bind_of_ok hentries]
  rfl

def sampleMap : PlainMap :=
  .scalar ⟨['a'], rfl⟩ (.text ['i', '\'', 'm', '\x7d'] (by simp [isMarker]))
    (.nested ⟨['b'], rfl⟩
      (.scalar ⟨['c'], rfl⟩
        (.integer { kind := .int32, value := -5, holds := by decide, narrowest := .inl rfl })
        .nil)
      .nil)

theorem exists_written_sampleMap :
    ∃ text, sampleMap.Written true text ∧
      '%' :: '\x7b' :: text ++ ['\x7d', '%'] =
        "%\x7b a = \"i'm\x7d\" ,\n b=\x7bc=-5\x7d\t\x7d%".toList := by
  have hnil : PlainMap.IsLayoutRun [] := fun _ h => nomatch h
  have hspace : PlainMap.IsLayoutRun [' '] := by simp [PlainMap.IsLayoutRun, Text.isLayout]
  have htab : PlainMap.IsLayoutRun ['\t'] := by simp [PlainMap.IsLayoutRun, Text.isLayout]
  have hline : PlainMap.IsLayoutRun ['\n', ' '] := by simp [PlainMap.IsLayoutRun, Text.isLayout]
  have hraw : Escaped '"' ['i', '\'', 'm', '\x7d'] ['i', '\'', 'm', '\x7d'] :=
    .plain (by decide) (by decide) (.plain (by decide) (by decide)
      (.plain (by decide) (by decide) (.plain (by decide) (by decide) .nil)))
  exact ⟨_,
    .scalar (.leading hspace) hspace hspace (.text _ (.inr rfl) hraw)
      (.nested (.comma hspace hline) hnil hnil
        (.scalar (.leading hnil) hnil hnil (.integer _) (.nil _ hnil))
        (.nil _ htab)),
    by decide⟩

theorem readMapLiteral_written_sampleMap :
    readMapLiteral "%\x7b a = \"i'm\x7d\" ,\n b=\x7bc=-5\x7d\t\x7d%".toList =
      .done sampleMap.literal ['%'] := by
  obtain ⟨text, hwritten, htext⟩ := exists_written_sampleMap
  have hdistinct : sampleMap.Distinct := ⟨by decide, by decide, ⟨by decide, trivial⟩, trivial⟩
  rw [← htext]
  exact (readMapLiteral_written hdistinct (by decide) hwritten).1 ['%']

end Stencil.Template
