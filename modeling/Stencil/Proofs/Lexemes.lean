import Mathlib.Data.List.TakeDrop
import Stencil.Proofs.Reading

namespace Stencil.Template

open Reader

theorem contains_eq_false {p : Char → Bool} {listed : List Char} {c : Char} (hc : p c = true)
    (hlisted : listed.all (fun d => !p d) = true) : listed.contains c = false := by
  rw [Bool.eq_false_iff]
  intro hmem
  have := List.all_eq_true.mp hlisted c (by simpa using hmem)
  simp [hc] at this

theorem of_isLayout {p : Char → Bool} {c : Char} (hc : Text.isLayout c = true)
    (hp : [' ', '\t', '\n', '\r'].all p = true) : p c = true := by
  refine List.all_eq_true.mp hp c ?_
  simpa [Text.isLayout, or_assoc] using hc

theorem isAlpha_eq (c : Char) :
    c.isAlpha = (decide (c.val ≥ 'A'.val ∧ c.val ≤ 'Z'.val) ||
      decide (c.val ≥ 'a'.val) && decide (c.val ≤ 'z'.val)) :=
  rfl

/-- A run of characters in `p` does not go on into the text. -/
def Stops (p : Char → Bool) (text : List Char) : Prop :=
  ∀ c ∈ text.head?, p c = false

namespace Stops

variable {p : Char → Bool} {front text : List Char}

theorem nil : Stops p [] :=
  fun _ h => nomatch h

theorem cons {c : Char} (h : p c = false) (rest : List Char) : Stops p (c :: rest) := by
  intro _ heq
  cases heq
  exact h

theorem of_head?_eq {c : Char} (htext : text.head? = some c) (h : p c = false) :
    Stops p text := by
  rintro _ hc
  rw [htext] at hc
  cases hc
  exact h

theorem head?_ne {c : Char} (h : Stops p text) (hc : p c = true) : text.head? ≠ some c := by
  intro heq
  exact Bool.false_ne_true ((h c heq).symm.trans hc)

theorem mono (h : Stops p text) {q : Char → Bool} (hle : ∀ c, q c = true → p c = true) :
    Stops q text := by
  intro c hc
  rw [Bool.eq_false_iff]
  intro hq
  exact Bool.false_ne_true ((h c hc).symm.trans (hle c hq))

theorem takeWhile_eq (h : Stops p text) : text.takeWhile p = [] := by
  cases text with
  | nil => rfl
  | cons c rest => exact List.takeWhile_cons_of_neg (Bool.eq_false_iff.mp (h c rfl))

theorem dropWhile_eq (h : Stops p text) : text.dropWhile p = text := by
  cases text with
  | nil => rfl
  | cons c rest => exact List.dropWhile_cons_of_neg (Bool.eq_false_iff.mp (h c rfl))

theorem span_eq (h : Stops p text) : text.span p = ([], text) := by
  rw [List.span_eq_takeWhile_dropWhile, h.takeWhile_eq, h.dropWhile_eq]

theorem dropWhile (p : Char → Bool) (text : List Char) : Stops p (text.dropWhile p) := by
  intro c hc
  have hhead := List.head?_dropWhile_not p text
  rw [Option.mem_def.mp hc] at hhead
  exact hhead

theorem takeWhile_append (hfront : ∀ c ∈ front, p c = true) (h : Stops p text) :
    (front ++ text).takeWhile p = front := by
  rw [List.takeWhile_append_of_pos hfront, h.takeWhile_eq, List.append_nil]

theorem dropWhile_append (hfront : ∀ c ∈ front, p c = true) (h : Stops p text) :
    (front ++ text).dropWhile p = text := by
  rw [List.dropWhile_append_of_pos hfront, h.dropWhile_eq]

theorem span_append (hfront : ∀ c ∈ front, p c = true) (h : Stops p text) :
    (front ++ text).span p = (front, text) := by
  rw [List.span_eq_takeWhile_dropWhile, h.takeWhile_append hfront, h.dropWhile_append hfront]

end Stops

theorem skipLayout_of_stops {text : List Char} (h : Stops Text.isLayout text) :
    skipLayout text = text :=
  h.dropWhile_eq

theorem lexeme_of_stops {α : Type} {p : Reader α} {text middle rest : List Char} {value : α}
    (hfront : Stops Text.isLayout text) (h : p text = .done value middle)
    (hrest : skipLayout middle = rest) : lexeme p text = .done value rest := by
  rw [← hrest]
  refine lexeme_of_done ?_
  rw [skipLayout_of_stops hfront]
  exact h

theorem misses_lexeme_of_stops {α : Type} {p : Reader α} {text : List Char}
    (hfront : Stops Text.isLayout text) (h : Misses p text) : Misses (lexeme p) text := by
  refine misses_lexeme ?_
  rw [skipLayout_of_stops hfront]
  exact h

theorem isIdentifier_iff {name : List Char} :
    isIdentifier name = true ↔
      ∃ c rest, name = c :: rest ∧ isIdentifierStart c = true ∧
        ∀ d ∈ rest, isIdentifierChar d = true := by
  cases name with
  | nil => simp [isIdentifier]
  | cons c rest => simp [isIdentifier]

def Name : Type :=
  { chars : List Char // isIdentifier chars = true }

def Name.text (name : Name) : String :=
  String.ofList name.val

theorem identifier_append {name rest : List Char} (hname : isIdentifier name = true)
    (hrest : Stops isIdentifierChar rest) :
    identifier (name ++ rest) = .done (String.ofList name) rest := by
  obtain ⟨c, others, rfl, hc, hothers⟩ := isIdentifier_iff.mp hname
  simp only [List.cons_append, identifier, hc, if_true, hrest.takeWhile_append hothers,
    hrest.dropWhile_append hothers]

theorem misses_identifier {text : List Char} (h : Stops isIdentifierStart text) :
    Misses identifier text := by
  cases text with
  | nil => exact ⟨_, rfl⟩
  | cons c rest => exact misses_of_eq (if_neg (Bool.eq_false_iff.mp (h c rfl)))

section

variable {α : Type} {decode : String → Option α} {name rest : List Char}

theorem identifierAs_append {value : α} (hname : isIdentifier name = true)
    (hrest : Stops isIdentifierChar rest) (hdecode : decode (String.ofList name) = some value) :
    identifierAs decode (name ++ rest) = .done value rest := by
  simp only [identifierAs, identifier_append hname hrest, hdecode]

theorem misses_identifierAs_append (hname : isIdentifier name = true)
    (hrest : Stops isIdentifierChar rest) (hdecode : decode (String.ofList name) = none) :
    Misses (identifierAs decode) (name ++ rest) := by
  have hmissing : identifierAs decode (name ++ rest) =
      missing .expectedIdentifier (name ++ rest) := by
    simp only [identifierAs, identifier_append hname hrest, hdecode]
  exact misses_of_eq hmissing

theorem misses_identifierAs {text : List Char} (h : Stops isIdentifierStart text) :
    Misses (identifierAs decode) text := by
  obtain ⟨fault, h⟩ := misses_identifier h
  exact ⟨fault, by simp only [identifierAs, h]⟩

theorem of_identifierAs_eq_done {value : α} {text : List Char}
    (h : identifierAs decode text = .done value rest) :
    ∃ name, text = name ++ rest ∧ Stops isIdentifierChar rest ∧
      decode (String.ofList name) = some value := by
  unfold identifierAs identifier at h
  cases text with
  | nil => cases h
  | cons c others =>
      dsimp only at h
      by_cases hc : isIdentifierStart c = true
      · simp only [hc, if_true] at h
        split at h
        · rename_i found hfound
          cases h
          refine ⟨c :: others.takeWhile isIdentifierChar, ?_, .dropWhile _ _, hfound⟩
          rw [List.cons_append, List.takeWhile_append_dropWhile]
        · cases h
      · simp [hc, missing] at h

end

theorem isIdentifier_word (op : WordOperator) : isIdentifier op.word.toList = true := by
  cases op <;> decide

theorem wordOperator_word (op : WordOperator) {rest : List Char}
    (hrest : Stops isIdentifierChar rest) :
    wordOperator op (op.word.toList ++ rest) = .done () rest := by
  refine identifierAs_append (isIdentifier_word op) hrest ?_
  rw [String.ofList_toList, WordOperator.ofWord?_word, if_pos rfl]

theorem keyword_append (chars : List Char) {rest : List Char}
    (hrest : Stops isIdentifierChar rest) : keyword chars (chars ++ rest) = .done () rest := by
  rw [keyword, bind_of_done (word_append chars rest)]
  cases rest with
  | nil => rfl
  | cons c rest => exact if_neg (Bool.eq_false_iff.mp (hrest c rfl))

/-- What two such quotes may enclose: the quote itself only behind a backslash. -/
inductive Enclosed (quote : Char) : List Char → Prop where
  | nil : Enclosed quote []
  | plain {c : Char} {body : List Char} (hslash : c ≠ '\\') (hquote : c ≠ quote)
      (h : Enclosed quote body) : Enclosed quote (c :: body)
  | escape (c : Char) {body : List Char} (h : Enclosed quote body) :
      Enclosed quote ('\\' :: c :: body)

theorem Enclosed.splitAtQuote_eq {quote : Char} (hquote : quote ≠ '\\') {body : List Char}
    (h : Enclosed quote body) (rest : List Char) :
    splitAtQuote quote (body ++ quote :: rest) = some (body, rest) := by
  induction h with
  | nil => simp [splitAtQuote, hquote]
  | plain hslash hne _ ih => simp [splitAtQuote, hslash, hne, ih]
  | escape _ _ ih => simp [splitAtQuote, ih]

theorem Enclosed.quotedBody_eq {quote : Char} (hquote : quote ≠ '\\') {body : List Char}
    (h : Enclosed quote body) (rest : List Char) :
    quotedBody quote (quote :: body ++ quote :: rest) = .done body rest := by
  simp [quotedBody, h.splitAtQuote_eq hquote rest]

/-- `raw` stands for `content` between quotes: a backslash precedes every backslash and every
such quote. It may also precede the other quote. -/
inductive Escaped (quote : Char) : List Char → List Char → Prop where
  | nil : Escaped quote [] []
  | plain {c : Char} {content raw : List Char} (hslash : c ≠ '\\') (hquote : c ≠ quote)
      (h : Escaped quote content raw) : Escaped quote (c :: content) (c :: raw)
  | escape {c : Char} {content raw : List Char} (hc : isEscapable c = true)
      (h : Escaped quote content raw) : Escaped quote (c :: content) ('\\' :: c :: raw)

namespace Escaped

variable {quote : Char} {content raw : List Char}

theorem unescape_eq (h : Escaped quote content raw) : unescape raw = content := by
  induction h with
  | nil => rfl
  | plain hslash _ _ ih => simp [unescape, hslash, ih]
  | escape hc _ ih => simp [unescape, hc, ih]

theorem enclosed (h : Escaped quote content raw) : Enclosed quote raw := by
  induction h with
  | nil => exact .nil
  | plain hslash hne _ ih => exact .plain hslash hne ih
  | escape _ _ ih => exact .escape _ ih

theorem quotedBody_eq (hquote : quote ≠ '\\') (h : Escaped quote content raw)
    (rest : List Char) :
    quotedBody quote (quote :: raw ++ quote :: rest) = .done raw rest :=
  h.enclosed.quotedBody_eq hquote rest

end Escaped

def escape (content : List Char) : List Char :=
  content.flatMap fun c => if isEscapable c then ['\\', c] else [c]

theorem escaped_escape {quote : Char} (hquote : isEscapable quote = true)
    (content : List Char) : Escaped quote content (escape content) := by
  induction content with
  | nil => exact .nil
  | cons c rest ih =>
      by_cases hc : isEscapable c = true
      · simpa [escape, hc] using Escaped.escape hc ih
      · have hne : c ≠ quote := by
          intro heq
          cases heq
          exact hc hquote
        have hslash : c ≠ '\\' := by
          intro heq
          cases heq
          exact hc (by decide)
        simpa [escape, hc] using Escaped.plain hslash hne ih

end Stencil.Template
