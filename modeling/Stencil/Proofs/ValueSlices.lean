import Stencil.Proofs.NestedReading
import Stencil.Proofs.Tokens

/-! Values of map literals are cut out at byte positions. The scanners count bytes from behind the
first character, and what is made of a value relies on its ends: it goes without its first and last
byte, or without the word for quotes at its end. -/

namespace Stencil.Template

open Text.Tokens

/-- The position of the first `quote` that no backslash stands before, where `offset` bytes stand
in front of the text and its first character may be behind a backslash. -/
def closingQuoteAt? (quote : Char) (escaped : Bool) (offset : Nat) : List Char → Option Nat
  | [] => none
  | c :: rest =>
      if escaped then closingQuoteAt? quote false (offset + c.utf8Size) rest
      else if c == '\\' then closingQuoteAt? quote true (offset + c.utf8Size) rest
      else if c == quote then some offset
      else closingQuoteAt? quote false (offset + c.utf8Size) rest

/-- The position of the brace that closes one already open `depth` levels further out. -/
def closingBraceAt? (depth : Nat) (quote : Option Char) (escaped : Bool) (offset : Nat) :
    List Char → Option Nat
  | [] => none
  | c :: rest =>
      let next (depth : Nat) (quote : Option Char) (escaped : Bool) :=
        closingBraceAt? depth quote escaped (offset + c.utf8Size) rest
      if escaped then next depth quote false
      else if c == '\\' then next depth quote true
      else
        match quote with
        | some q => next depth (if c == q then none else some q) false
        | none =>
            if c == '\'' || c == '"' then next depth (some c) false
            else if c == '\x7b' then next (depth + 1) none false
            else if c == '\x7d' then
              match depth with
              | 0 => some offset
              | depth + 1 => next depth none false
            else next depth none false

def bareEndAt (depth offset : Nat) : List Char → Nat
  | [] => offset
  | c :: rest =>
      if c == '\x7b' || c == '(' then bareEndAt (depth + 1) (offset + c.utf8Size) rest
      else if c == '\x7d' || c == ')' then bareEndAt (depth - 1) (offset + c.utf8Size) rest
      else if depth == 0 && (Text.isBlank c || c == ',') then offset
      else bareEndAt depth (offset + c.utf8Size) rest

theorem map_position_cons (offset : Nat) (c : Char) (split : Option (List Char × List Char)) :
    (split.map fun (body, after) => (c :: body, after)).map (offset + byteLength ·.1) =
      split.map (offset + c.utf8Size + byteLength ·.1) := by
  rw [Option.map_map]
  congr 1
  funext ⟨body, after⟩
  exact (Nat.add_assoc _ _ _).symm

theorem closingQuoteAt?_eq (quote : Char) (offset : Nat) (text : List Char) :
    closingQuoteAt? quote false offset text =
      (splitAtQuote quote text).map (offset + byteLength ·.1) := by
  fun_induction splitAtQuote quote text generalizing offset with
  | case1 => rfl
  | case2 => rfl
  | case3 c rest ih =>
      simp [closingQuoteAt?, ih, Option.map_map, Function.comp_def, byteLength_cons, Nat.add_assoc]
  | case4 c rest hlone hslash hc =>
      simp [closingQuoteAt?, ne_backslash hlone hslash, hc, byteLength]
  | case5 c rest hlone hslash hc ih =>
      simp only [closingQuoteAt?, beq_false_of_ne (ne_backslash hlone hslash), hc, ih,
        map_position_cons, Bool.false_eq_true, if_false]

theorem closingBraceAt?_eq (depth : Nat) (quote : Option Char) (offset : Nat) (text : List Char) :
    closingBraceAt? depth quote false offset text =
      (splitAtBrace depth quote text).map (offset + byteLength ·.1) := by
  fun_induction splitAtBrace depth quote text generalizing offset with
  | case1 => rfl
  | case2 => rfl
  | case3 depth quote c rest ih =>
      simp [closingBraceAt?, ih, Option.map_map, Function.comp_def, byteLength_cons, Nat.add_assoc]
  | case7 c rest hlone hslash hquote hopen hclose =>
      have hne := beq_false_of_ne (ne_backslash hlone hslash)
      simp [closingBraceAt?, hne, hquote, hopen, hclose, byteLength]
  | case4 _ c _ hlone hslash within | case5 _ c _ hlone hslash within
  | case6 _ c _ hlone hslash within | case8 c _ hlone hslash within
  | case9 _ c _ hlone hslash within =>
      have hne := beq_false_of_ne (ne_backslash hlone hslash)
      simp only [within, map_position_cons, closingBraceAt?, Bool.false_eq_true, if_false, if_true,
        *]

theorem bareEndAt_eq (depth offset : Nat) (text : List Char) :
    bareEndAt depth offset text = offset + byteLength (splitBare depth text).1 := by
  induction text generalizing depth offset with
  | nil => rfl
  | cons c rest ih =>
      simp only [bareEndAt, splitBare, ih]
      split_ifs <;> simp only [byteLength_cons, Nat.add_assoc]
      rfl

/-- Cuts a value out of a text. What it begins with takes one byte, and so does what ends it. -/
def valueAt? (text : List Char) : Option (Except Complaint (List Char × List Char)) :=
  let behindFirst (position : List Char → Option Nat) (complaint : Complaint) :=
    (splitAtByte? 1 text).bind fun (_, behind) =>
      match position behind with
      | some n => (splitAtByte? (n + 2) text).map .ok
      | none => some (.error complaint)
  match text with
  | [] => some (.error .expectedValue)
  | c :: _ =>
      if c == '\'' || c == '"' then behindFirst (closingQuoteAt? c false 0) .unterminatedMapString
      else if c == '\x7b' then
        behindFirst (closingBraceAt? 0 none false 0) .unterminatedNestedMap
      else (splitAtByte? (bareEndAt 0 0 text) text).map .ok

def bytesBetween? (start stop : Nat) (text : List Char) : Option (List Char) :=
  if start ≤ stop then
    (splitAtByte? stop text).bind fun (front, _) => (splitAtByte? start front).map Prod.snd
  else none

def withoutEndBytes? (text : List Char) : Option (List Char) :=
  if 1 ≤ byteLength text then bytesBetween? 1 (byteLength text - 1) text else none

/-- What stands in front of a word that ends the text, in letters of either case. The text is not
cut where the word cannot begin. -/
def beforeWordAt? (word : String) (text : List Char) : Option (Option (List Char)) :=
  if byteLength word.toList < byteLength text then
    let start := byteLength text - byteLength word.toList
    match splitAtByte? start text with
    | none => some none
    | some _ =>
        (bytesBetween? start (byteLength text) text).bind fun ending =>
          if ending.map Char.toLower == word.toList.map Char.toLower then
            (splitAtByte? start text).map fun (front, _) => some front
          else some none
  else some none

def splitQuoteSuffixAt? (text : List Char) : Option (List Char × Option Char) :=
  (beforeWordAt? ".to_squote" text).bind fun single =>
    match single with
    | some front => some (front, some '\'')
    | none =>
        (beforeWordAt? ".to_quote" text).map fun double =>
          match double with
          | some front => (front, some '"')
          | none => (text, none)

theorem splitAtByte?_enclosed {first last : Char} (hfirst : first.utf8Size = 1)
    (hlast : last.utf8Size = 1) (body after : List Char) :
    splitAtByte? (0 + byteLength body + 2) (first :: (body ++ last :: after)) =
      some (first :: body ++ [last], after) := by
  refine splitAtByte?_eq_some_iff.mpr ⟨by simp, ?_⟩
  rw [byteLength_append, byteLength_cons, byteLength_cons, hfirst, hlast]
  change 1 + byteLength body + (1 + 0) = _
  omega

/-- All cuts are made at positions of the text, and what is cut out is the value. -/
theorem valueAt?_eq (text : List Char) : valueAt? text = some (splitValue text) := by
  cases text with
  | nil => rfl
  | cons c others =>
      have hbehind (hc : c.utf8Size = 1) : splitAtByte? 1 (c :: others) = some ([c], others) := by
        refine splitAtByte?_eq_some_iff.mpr ⟨rfl, ?_⟩
        rw [byteLength_cons, hc]
        rfl
      simp only [valueAt?, splitValue]
      split_ifs with hquote hbrace
      · have hc : c.utf8Size = 1 := by
          simp only [Bool.or_eq_true, beq_iff_eq] at hquote
          rcases hquote with rfl | rfl <;> rfl
        rw [hbehind hc, Option.bind_some, closingQuoteAt?_eq]
        cases hsplit : splitAtQuote c others with
        | none => rfl
        | some found =>
            have htext := append_of_splitAtQuote hsplit
            rw [htext]
            simp only [Option.map_some, splitAtByte?_enclosed hc hc]
      · obtain rfl := eq_of_beq hbrace
        rw [hbehind rfl, Option.bind_some, closingBraceAt?_eq]
        cases hsplit : splitAtBrace 0 none others with
        | none => rfl
        | some found =>
            have htext := append_of_splitAtBrace hsplit
            rw [htext]
            have hopen : '\x7b'.utf8Size = 1 := rfl
            have hclose : '\x7d'.utf8Size = 1 := rfl
            simp only [Option.map_some, splitAtByte?_enclosed hopen hclose]
      · have hend := bareEndAt_eq 0 0 (c :: others)
        have happend := append_of_splitBare 0 (c :: others)
        generalize splitBare 0 (c :: others) = cut at hend happend ⊢
        rw [hend, Nat.zero_add, happend, splitAtByte?_byteLength]
        rfl

theorem bytesBetween?_append (front piece back : List Char) :
    bytesBetween? (byteLength front) (byteLength (front ++ piece)) (front ++ piece ++ back) =
      some piece := by
  have hle : byteLength front ≤ byteLength (front ++ piece) := by
    rw [byteLength_append]
    exact Nat.le_add_right _ _
  simp only [bytesBetween?, if_pos hle, splitAtByte?_byteLength, Option.bind_some,
    Option.map_some]

theorem withoutEndBytes?_eq {first last : Char} (hfirst : first.utf8Size = 1)
    (hlast : last.utf8Size = 1) (body : List Char) :
    withoutEndBytes? (first :: body ++ [last]) = some body := by
  have hlength : byteLength (first :: body ++ [last]) = byteLength ([first] ++ body) + 1 := by
    rw [byteLength_append, byteLength_cons last, hlast]
    rfl
  have hone : byteLength [first] = 1 := by
    rw [byteLength_cons, hfirst]
    rfl
  have hcut := bytesBetween?_append [first] body [last]
  rw [hone] at hcut
  rw [withoutEndBytes?, hlength, if_pos (Nat.le_add_left 1 _), Nat.add_sub_cancel]
  exact hcut

theorem utf8Size_toLower (c : Char) : c.toLower.utf8Size = c.utf8Size := by
  by_cases h : c.toNat < 0x80
  · have hall : ∀ n < 0x80, (Char.ofNat n).toLower.utf8Size = (Char.ofNat n).utf8Size := by
      decide +kernel
    simpa using hall c.toNat h
  · have hother : ¬ (c.val ≥ 'A'.val ∧ c.val ≤ 'Z'.val) := fun hle =>
      h (Nat.lt_of_le_of_lt (UInt32.le_iff_toNat_le.mp hle.2) (by decide))
    have hsame : c.toLower = c := dif_neg hother
    rw [hsame]

theorem byteLength_map_toLower (text : List Char) :
    byteLength (text.map Char.toLower) = byteLength text := by
  induction text with
  | nil => rfl
  | cons c rest ih => rw [List.map_cons, byteLength_cons, byteLength_cons, ih, utf8Size_toLower]

theorem byteLength_pos {text : List Char} (hne : text ≠ []) : 0 < byteLength text := by
  obtain ⟨c, rest, rfl⟩ := List.exists_cons_of_ne_nil hne
  exact Nat.add_pos_left c.utf8Size_pos _

/-- `front` is what stands in front of a word that ends the text, in letters of either case. -/
structure EndsIn (word : String) (text front : List Char) : Prop where
  nonempty : front ≠ []
  ending : ∃ ending, text = front ++ ending ∧
    ending.map Char.toLower = word.toList.map Char.toLower

theorem beforeWordAt?_of_endsIn {word : String} {text front : List Char}
    (h : EndsIn word text front) : beforeWordAt? word text = some (some front) := by
  obtain ⟨ending, rfl, hending⟩ := h.ending
  have hsize : byteLength ending = byteLength word.toList := by
    rw [← byteLength_map_toLower, hending, byteLength_map_toLower]
  have hlength := byteLength_append front ending
  have hpos := byteLength_pos h.nonempty
  have hlt : byteLength word.toList < byteLength (front ++ ending) := by omega
  have hstart : byteLength (front ++ ending) - byteLength word.toList = byteLength front := by omega
  have hbytes := bytesBetween?_append front ending []
  rw [List.append_nil] at hbytes
  simp only [beforeWordAt?, if_pos hlt, hstart, splitAtByte?_byteLength, hbytes, Option.bind_some,
    hending, BEq.rfl, if_true, Option.map_some]

theorem beforeWordAt?_of_forall {word : String} {text : List Char}
    (h : ∀ front, ¬ EndsIn word text front) : beforeWordAt? word text = some none := by
  simp only [beforeWordAt?]
  split
  · rename_i hlt
    split
    · rfl
    · rename_i cut hsplit
      obtain ⟨front, ending⟩ := cut
      obtain ⟨rfl, hlength⟩ := append_of_splitAtByte? hsplit
      have hfront : front ≠ [] := by
        rintro rfl
        change 0 = _ at hlength
        omega
      have hbytes := bytesBetween?_append front ending []
      rw [List.append_nil, hlength] at hbytes
      have hother : (ending.map Char.toLower == word.toList.map Char.toLower) = false :=
        beq_false_of_ne fun hending => h front ⟨hfront, ending, rfl, hending⟩
      rw [hbytes, Option.bind_some, hother]
      rfl
  · rfl

theorem endsIn_iff {word : String} (hword : word.toList.map Char.toLower = word.toList)
    {text front : List Char} :
    EndsIn word text front ↔
      (decide (word.length < text.length) &&
        (text.drop (text.length - word.length)).map Char.toLower == word.toList) = true ∧
      front = text.take (text.length - word.length) := by
  rw [Bool.and_eq_true, beq_iff_eq, decide_eq_true_iff]
  constructor
  · rintro ⟨hfront, ending, rfl, hending⟩
    have hlength : word.length = ending.length := by
      rw [← String.length_toList, ← List.length_map, ← hending, List.length_map]
    have hpos := List.length_pos_of_ne_nil hfront
    have hstart : (front ++ ending).length - word.length = front.length := by
      rw [List.length_append, hlength, Nat.add_sub_cancel]
    rw [hstart, List.drop_left, List.take_left, hending, hword, List.length_append]
    exact ⟨⟨by omega, rfl⟩, rfl⟩
  · rintro ⟨⟨hlt, hending⟩, rfl⟩
    refine ⟨?_, _, (List.take_append_drop _ _).symm, hending.trans hword.symm⟩
    intro hnil
    have := congrArg List.length hnil
    rw [List.length_take] at this
    simp at this
    omega

theorem beforeWordAt?_eq (word : String) (hword : word.toList.map Char.toLower = word.toList)
    (text : List Char) :
    beforeWordAt? word text = some (
      if (decide (word.length < text.length) &&
        (text.drop (text.length - word.length)).map Char.toLower == word.toList) = true then
        some (text.take (text.length - word.length))
      else none) := by
  split
  · rename_i hends
    exact beforeWordAt?_of_endsIn ((endsIn_iff hword).mpr ⟨hends, rfl⟩)
  · rename_i hends
    exact beforeWordAt?_of_forall fun front h => hends ((endsIn_iff hword).mp h).1

theorem splitQuoteSuffixAt?_eq (text : List Char) :
    splitQuoteSuffixAt? text = some (splitQuoteSuffix text) := by
  have hsingle := beforeWordAt?_eq ".to_squote" (by decide) text
  have hdouble := beforeWordAt?_eq ".to_quote" (by decide) text
  simp only [splitQuoteSuffixAt?, splitQuoteSuffix, hsingle, hdouble, Option.bind_some,
    Option.map_some]
  split_ifs <;> rfl

/-- Every brace of the text has its counterpart in it, save for those between quotes and behind
backslashes, and all quotes are closed. -/
inductive Balanced : List Char → Prop where
  | nil : Balanced []
  | plain {c : Char} {text : List Char} (hc : isBraceActive c = false) (h : Balanced text) :
      Balanced (c :: text)
  | escape (c : Char) {text : List Char} (h : Balanced text) : Balanced ('\\' :: c :: text)
  | quoted {quote : Char} {body text : List Char} (hquote : quote = '\'' ∨ quote = '"')
      (hbody : Enclosed quote body) (h : Balanced text) :
      Balanced (quote :: body ++ quote :: text)
  | braced {body text : List Char} (hbody : Balanced body) (h : Balanced text) :
      Balanced ('\x7b' :: body ++ '\x7d' :: text)

theorem Passes.escape (c : Char) {text : List Char} (h : Passes text) :
    Passes ('\\' :: c :: text) := by
  intro depth rest body after hrest
  simp [splitAtBrace, h depth rest body after hrest]

theorem Balanced.passes {text : List Char} (h : Balanced text) : Passes text := by
  induction h with
  | nil => exact .nil
  | plain hc _ ih => exact ih.cons hc
  | escape c _ ih => exact ih.escape c
  | quoted hquote hbody _ ih => simpa using (Passes.quoted hquote hbody).append ih
  | braced _ _ ihbody ih => simpa using ihbody.braced.append ih

/-- The text closes the quote that is open in front of it, if one is, and then as many braces. -/
inductive Closes : Nat → Option Char → List Char → Prop where
  | balanced {text : List Char} (h : Balanced text) : Closes 0 none text
  | brace {depth : Nat} {inside behind : List Char} (hinside : Balanced inside)
      (h : Closes depth none behind) : Closes (depth + 1) none (inside ++ '\x7d' :: behind)
  | quote {depth : Nat} {quote : Char} {inside behind : List Char}
      (hinside : Enclosed quote inside) (h : Closes depth none behind) :
      Closes depth (some quote) (inside ++ quote :: behind)

namespace Closes

variable {depth : Nat} {text : List Char}

theorem prepend (front : List Char)
    (hfront : ∀ text, Balanced text → Balanced (front ++ text)) (h : Closes depth none text) :
    Closes depth none (front ++ text) := by
  cases h with
  | balanced h => exact .balanced (hfront text h)
  | @brace depth inside behind hinside h =>
      rw [← List.append_assoc]
      exact .brace (hfront inside hinside) h

theorem escape {quote : Option Char} (c : Char) (h : Closes depth quote text) :
    Closes depth quote ('\\' :: c :: text) := by
  cases quote with
  | none => exact h.prepend ['\\', c] fun _ => .escape c
  | some quote =>
      cases h with
      | quote hinside h => exact .quote (hinside.escape c) h

theorem quoted {quote c : Char} (hslash : c ≠ '\\')
    (h : Closes depth (if c == quote then none else some quote) text) :
    Closes depth (some quote) (c :: text) := by
  by_cases hc : c = quote
  · subst hc
    rw [if_pos BEq.rfl] at h
    exact .quote .nil h
  · rw [if_neg (mt beq_iff_eq.mp hc)] at h
    cases h with
    | quote hinside h => exact .quote (.plain hslash hc hinside) h

theorem opensQuote {quote : Char} (hquote : quote = '\'' ∨ quote = '"')
    (h : Closes depth (some quote) text) : Closes depth none (quote :: text) := by
  cases h with
  | @quote _ _ inside behind hinside h =>
      have hclosed := h.prepend (quote :: inside ++ [quote]) fun text htext => by
        simpa using Balanced.quoted hquote hinside htext
      simpa using hclosed

theorem opensBrace (h : Closes (depth + 1) none text) : Closes depth none ('\x7b' :: text) := by
  cases h with
  | @brace _ inside behind hinside h =>
      have hclosed := h.prepend ('\x7b' :: inside ++ ['\x7d']) fun text htext => by
        simpa using Balanced.braced hinside htext
      simpa using hclosed

end Closes

theorem closes_of_splitAtBrace {depth : Nat} {quote : Option Char} {text body after : List Char}
    (h : splitAtBrace depth quote text = some (body, after)) : Closes depth quote body := by
  fun_induction splitAtBrace depth quote text generalizing body after with
  | case1 => cases h
  | case2 => cases h
  | case3 depth quote c rest ih =>
      obtain ⟨⟨inside, behind⟩, hsplit, heq⟩ := Option.map_eq_some_iff.mp h
      cases heq
      exact (ih hsplit).escape c
  | case4 depth c rest hlone hslash within quote =>
      rename_i ih
      obtain ⟨⟨inside, behind⟩, hsplit, heq⟩ := Option.map_eq_some_iff.mp h
      cases heq
      exact (ih _ _ hsplit).quoted (ne_backslash hlone hslash)
  | case5 depth c rest hlone hslash within hquote =>
      rename_i ih
      obtain ⟨⟨inside, behind⟩, hsplit, heq⟩ := Option.map_eq_some_iff.mp h
      cases heq
      exact (ih _ _ hsplit).opensQuote (by simpa using hquote)
  | case6 depth c rest hlone hslash within hquote hopen =>
      rename_i ih
      obtain ⟨⟨inside, behind⟩, hsplit, heq⟩ := Option.map_eq_some_iff.mp h
      cases heq
      rw [eq_of_beq hopen]
      exact (ih _ _ hsplit).opensBrace
  | case7 =>
      cases h
      exact .balanced .nil
  | case8 c rest hlone hslash within hquote hopen hclose depth =>
      rename_i ih
      obtain ⟨⟨inside, behind⟩, hsplit, heq⟩ := Option.map_eq_some_iff.mp h
      cases heq
      rw [eq_of_beq hclose]
      exact .brace .nil (ih _ _ hsplit)
  | case9 depth c rest hlone hslash within hquote hopen hclose =>
      rename_i ih
      obtain ⟨⟨inside, behind⟩, hsplit, heq⟩ := Option.map_eq_some_iff.mp h
      cases heq
      have hslash := ne_backslash hlone hslash
      have hactive : isBraceActive c = false := by
        simp at hquote hopen hclose
        simp [isBraceActive, hslash, hquote, hopen, hclose]
      exact (ih _ _ hsplit).prepend [c] fun _ => .plain hactive

/-- The scanner for a closing brace finds the first one that balances. -/
theorem splitAtBrace_eq_some_iff {text body after : List Char} :
    splitAtBrace 0 none text = some (body, after) ↔
      text = body ++ '\x7d' :: after ∧ Balanced body := by
  constructor
  · intro h
    cases closes_of_splitAtBrace h with
    | balanced hbody => exact ⟨append_of_splitAtBrace h, hbody⟩
  · rintro ⟨rfl, hbody⟩
    exact hbody.passes.splitAtBrace_eq after

theorem balanced_of_splitValue {others body rest : List Char}
    (h : splitValue ('\x7b' :: others) = .ok ('\x7b' :: body ++ ['\x7d'], rest)) :
    others = body ++ '\x7d' :: rest ∧ Balanced body := by
  have hquote : ('\x7b' == '\'' || '\x7b' == '"') = false := rfl
  simp only [splitValue, hquote, Bool.false_eq_true, if_false, BEq.rfl, if_true] at h
  split at h
  · rename_i inside after hsplit
    obtain ⟨hvalue, rfl⟩ := Prod.mk.inj (Except.ok.inj h)
    obtain rfl := List.append_cancel_right (List.cons.inj hvalue).2
    exact splitAtBrace_eq_some_iff.mp hsplit
  · cases h

/-- A value stands in front of the rest of the text, and is cut off at a position of it. It is empty
in front of a comma only. Between quotes no such quote stands without a backslash, and a brace is
closed by the first one that balances. So there are a first and a last byte to take off then, and
the word for quotes is cut off where it begins. -/
theorem values_cut_exactly {c : Char} {others value rest : List Char}
    (hblank : Text.isBlank c = false) (h : splitValue (c :: others) = .ok (value, rest)) :
    value ++ rest = c :: others ∧
      splitAtByte? (byteLength value) (c :: others) = some (value, rest) ∧
      valueAt? (c :: others) = some (.ok (value, rest)) ∧
      (value = [] → c = ',') ∧
      (∀ quote tail, quote = '\'' ∨ quote = '"' → value = quote :: tail →
        withoutEndBytes? value = some (withoutEnds value) ∧
        ∃ body, tail = body ++ [quote] ∧ Enclosed quote body) ∧
      (∀ tail, value = '\x7b' :: tail →
        withoutEndBytes? value = some (withoutEnds value) ∧
        ∃ body, tail = body ++ ['\x7d'] ∧ Balanced body ∧
          ∀ body' after, others = body' ++ '\x7d' :: after → Balanced body' → body' = body) ∧
      splitQuoteSuffixAt? value = some (splitQuoteSuffix value) := by
  have happend : c :: others = value ++ rest := append_of_splitValue h
  have hcut := valueAt?_eq (c :: others)
  rw [h] at hcut
  refine ⟨happend.symm, splitAtByte?_eq_some_iff.mpr ⟨happend, rfl⟩, hcut, ?comma, ?quoted, ?braced,
    splitQuoteSuffixAt?_eq value⟩
  case comma =>
    rintro rfl
    obtain ⟨_, hcomma⟩ := eq_comma_of_splitValue h fun d hd => by
      cases hd
      exact hblank
    exact (List.cons.inj hcomma).1
  case quoted =>
    rintro quote tail hquote rfl
    obtain ⟨body, rfl⟩ := quoted_of_splitValue hquote h
    have hsize : quote.utf8Size = 1 := by rcases hquote with rfl | rfl <;> rfl
    rw [happend, ← List.cons_append] at h
    refine ⟨?_, body, rfl, enclosed_of_splitValue hquote h⟩
    rw [← List.cons_append, withoutEnds_concat]
    exact withoutEndBytes?_eq hsize hsize body
  case braced =>
    rintro tail rfl
    obtain ⟨body, rfl⟩ := closed_of_splitValue h
    obtain rfl := (List.cons.inj happend).1
    obtain ⟨hothers, hbody⟩ := balanced_of_splitValue h
    refine ⟨?_, body, rfl, hbody, fun body' after hothers' hbody' => ?_⟩
    · have hopen : '\x7b'.utf8Size = 1 := rfl
      have hclose : '\x7d'.utf8Size = 1 := rfl
      rw [← List.cons_append, withoutEnds_concat]
      exact withoutEndBytes?_eq hopen hclose body
    · have hfirst := splitAtBrace_eq_some_iff.mpr ⟨hothers, hbody⟩
      have hfirst' := splitAtBrace_eq_some_iff.mpr ⟨hothers', hbody'⟩
      exact (Prod.mk.inj (Option.some.inj (hfirst'.symm.trans hfirst))).1

/-- A map in braces that has a brace between quotes, and a key that no byte alone makes up. -/
theorem values_cut_exactly_braces :
    let text := "ä='\x7d', b=\x7b\x7d\x7d, c".toList
    let value := "\x7bä='\x7d', b=\x7b\x7d\x7d".toList
    Text.isBlank '\x7b' = false ∧ splitValue ('\x7b' :: text) = .ok (value, ", c".toList) ∧
      splitAtByte? 14 ('\x7b' :: text) = some (value, ", c".toList) ∧
      withoutEndBytes? value = some (withoutEnds value) := by
  intro text value
  have hcut : splitValue ('\x7b' :: text) = .ok (value, ", c".toList) := by decide
  obtain ⟨-, hposition, -, -, -, hbraced, -⟩ := values_cut_exactly (by decide) hcut
  exact ⟨by decide, hcut, hposition, (hbraced _ rfl).1⟩

end Stencil.Template
