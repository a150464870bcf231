import Mathlib.Data.List.DropRight
import Stencil.Template.Lexeme

namespace Stencil.Template.Reader

variable {α β : Type}

@[simp] theorem pure_apply (value : α) (text : List Char) :
    (pure value : Reader α) text = .done value text := rfl

theorem bind_of_done {p : Reader α} {f : α → Reader β} {text rest : List Char} {value : α}
    (h : p text = .done value rest) : (p >>= f) text = f value rest := by
  change Reader.bind p f text = _
  simp only [Reader.bind, h]

def Misses (p : Reader α) (text : List Char) : Prop :=
  ∃ fault, p text = .miss fault

theorem misses_of_eq {p : Reader α} {text : List Char} {complaint : Complaint}
    (h : p text = missing complaint text) : Misses p text :=
  ⟨_, h⟩

theorem Misses.bind {p : Reader α} {text : List Char} (h : Misses p text) (f : α → Reader β) :
    Misses (p >>= f) text := by
  obtain ⟨fault, h⟩ := h
  refine ⟨fault, ?_⟩
  change Reader.bind p f text = _
  simp only [Reader.bind, h]

theorem misses_bind_of_done {p : Reader α} {f : α → Reader β} {text rest : List Char} {value : α}
    (h : p text = .done value rest) (hmiss : Misses (f value) rest) : Misses (p >>= f) text := by
  obtain ⟨fault, hmiss⟩ := hmiss
  exact ⟨fault, (bind_of_done h).trans hmiss⟩

theorem orElse_of_done {p q : Reader α} {text rest : List Char} {value : α}
    (h : p text = .done value rest) : (p <|> q) text = .done value rest := by
  change Reader.orElse p (fun _ => q) text = _
  simp only [Reader.orElse, h]

theorem Misses.orElse_eq {p q : Reader α} {text : List Char} (h : Misses p text) :
    (p <|> q) text = q text := by
  obtain ⟨fault, h⟩ := h
  change Reader.orElse p (fun _ => q) text = _
  simp only [Reader.orElse, h]

theorem Misses.orElse {p q : Reader α} {text : List Char} (hp : Misses p text)
    (hq : Misses q text) : Misses (p <|> q) text := by
  obtain ⟨fault, hq⟩ := hq
  exact ⟨fault, hp.orElse_eq.trans hq⟩

theorem Misses.of_orElse {p q : Reader α} {text : List Char} (h : Misses (p <|> q) text) :
    Misses p text ∧ Misses q text := by
  obtain ⟨fault, h⟩ := h
  change Reader.orElse p (fun _ => q) text = _ at h
  simp only [Reader.orElse] at h
  split at h
  · rename_i first hfirst
    exact ⟨⟨first, hfirst⟩, fault, h⟩
  · rename_i hfirst
    exact absurd h (hfirst fault)

def Halts (p : Reader α) (text : List Char) : Prop :=
  ∃ fault, p text = .halt fault

theorem Halts.bind {p : Reader α} {text : List Char} (h : Halts p text) (f : α → Reader β) :
    Halts (p >>= f) text := by
  obtain ⟨fault, h⟩ := h
  refine ⟨fault, ?_⟩
  change Reader.bind p f text = _
  simp only [Reader.bind, h]

theorem halts_bind_of_done {p : Reader α} {f : α → Reader β} {text rest : List Char} {value : α}
    (h : p text = .done value rest) (hhalt : Halts (f value) rest) : Halts (p >>= f) text := by
  obtain ⟨fault, hhalt⟩ := hhalt
  exact ⟨fault, (bind_of_done h).trans hhalt⟩

theorem Halts.orElse {p : Reader α} {text : List Char} (h : Halts p text) (q : Reader α) :
    Halts (p <|> q) text := by
  obtain ⟨fault, h⟩ := h
  refine ⟨fault, ?_⟩
  change Reader.orElse p (fun _ => q) text = _
  simp only [Reader.orElse, h]

theorem Misses.orElse_halts {p q : Reader α} {text : List Char} (hp : Misses p text)
    (hq : Halts q text) : Halts (p <|> q) text := by
  obtain ⟨fault, hq⟩ := hq
  exact ⟨fault, hp.orElse_eq.trans hq⟩

theorem of_bind_eq_done {p : Reader α} {f : α → Reader β} {text rest : List Char} {value : β}
    (h : (p >>= f) text = .done value rest) :
    ∃ first middle, p text = .done first middle ∧ f first middle = .done value rest := by
  change Reader.bind p f text = _ at h
  simp only [Reader.bind] at h
  split at h
  · rename_i first middle hfirst
    exact ⟨first, middle, hfirst, h⟩
  · cases h
  · cases h

theorem of_orElse_eq_done {p q : Reader α} {text rest : List Char} {value : α}
    (h : (p <|> q) text = .done value rest) :
    p text = .done value rest ∨ q text = .done value rest := by
  change Reader.orElse p (fun _ => q) text = _ at h
  simp only [Reader.orElse] at h
  split at h
  · exact .inr h
  · exact .inl h

theorem of_cut_eq_done {p : Reader α} {text rest : List Char} {value : α}
    (h : cut p text = .done value rest) : p text = .done value rest := by
  simp only [cut] at h
  split at h
  · cases h
  · exact h

theorem of_under_eq_done {complaint : Complaint} {p : Reader α} {text rest : List Char}
    {value : α} (h : under complaint p text = .done value rest) :
    p text = .done value rest := by
  simp only [under] at h
  split at h
  · rename_i heq
    exact heq.trans h
  · cases h
  · cases h

theorem of_refusing_eq_done {c : Prop} [Decidable c] {complaint : Complaint} {p : Reader α}
    {start text rest : List Char} {value : α}
    (h : (if c then fun _ => halting complaint start else p : Reader α) text =
      .done value rest) : p text = .done value rest := by
  cases ‹Decidable c› with
  | isTrue _ => cases h
  | isFalse _ => exact h

theorem cut_of_done {p : Reader α} {text rest : List Char} {value : α}
    (h : p text = .done value rest) : cut p text = .done value rest := by
  simp only [cut, h]

theorem under_of_done {p : Reader α} {text rest : List Char} {value : α} (complaint : Complaint)
    (h : p text = .done value rest) : under complaint p text = .done value rest := by
  simp only [under, h]

theorem option_of_done {p : Reader α} {text rest : List Char} {value : α}
    (h : p text = .done value rest) : option p text = .done (some value) rest := by
  simp only [option, h]

theorem Misses.option_eq {p : Reader α} {text : List Char} (h : Misses p text) :
    option p text = .done none text := by
  obtain ⟨fault, h⟩ := h
  simp only [option, h]

theorem wholly_of_done {p : Reader α} {text : List Char} {value : α}
    (h : p text = .done value []) : wholly p text = .done value [] := by
  simp only [wholly, h]

theorem of_wholly_eq_done {p : Reader α} {text rest : List Char} {value : α}
    (h : wholly p text = .done value rest) : p text = .done value [] := by
  unfold wholly at h
  cases hread : p text with
  | done found left =>
      cases left with
      | nil =>
          rw [hread] at h
          cases h
          rfl
      | cons c left => simp [hread, missing] at h
  | miss fault => simp [hread] at h
  | halt fault => simp [hread] at h

theorem spanned_of_done {p : Reader α} {read rest : List Char} {value : α}
    (h : p (read ++ rest) = .done value rest) :
    spanned p (read ++ rest) = .done (read, value) rest := by
  simp [spanned, h]

@[simp] theorem char_self (c : Char) (rest : List Char) :
    char c (c :: rest) = .done () rest := by
  simp [char]

theorem of_char_eq_done {c : Char} {text rest : List Char} {value : Unit}
    (h : char c text = .done value rest) : text = c :: rest := by
  unfold char at h
  split at h
  · split at h
    · rename_i hc
      cases h
      rw [eq_of_beq hc]
    · cases h
  · cases h

theorem misses_char {c : Char} {text : List Char} (h : text.head? ≠ some c) :
    Misses (char c) text := by
  cases text with
  | nil => exact ⟨_, rfl⟩
  | cons d rest =>
      have hne : (d == c) = false := beq_eq_false_iff_ne.mpr fun heq => h (congrArg some heq)
      exact misses_of_eq (if_neg (by simp [hne]))

theorem misses_word {chars text : List Char} (h : chars.isPrefixOf text = false) :
    Misses (word chars) text := by
  exact misses_of_eq (if_neg (by simp [h]))

theorem word_append (chars rest : List Char) :
    word chars (chars ++ rest) = .done () rest := by
  simp [word]

def skipLayout (text : List Char) : List Char :=
  text.dropWhile Text.isLayout

theorem layout_eq (text : List Char) : layout text = .done () (skipLayout text) := rfl

@[simp] theorem skipLayout_skipLayout (text : List Char) :
    skipLayout (skipLayout text) = skipLayout text :=
  List.dropWhile_idempotent _ _

theorem length_skipLayout_le (text : List Char) : (skipLayout text).length ≤ text.length :=
  List.length_dropWhile_le ..

theorem lexeme_of_done {p : Reader α} {text rest : List Char} {value : α}
    (h : p (skipLayout text) = .done value rest) :
    lexeme p text = .done value (skipLayout rest) := by
  rw [lexeme, bind_of_done (layout_eq text), bind_of_done h, bind_of_done (layout_eq rest)]
  rfl

theorem of_lexeme_eq_done {p : Reader α} {text rest : List Char} {value : α}
    (h : lexeme p text = .done value rest) :
    ∃ after, p (skipLayout text) = .done value after ∧ rest = skipLayout after := by
  unfold lexeme at h
  rw [bind_of_done (layout_eq text)] at h
  obtain ⟨found, after, hfound, hbehind⟩ := of_bind_eq_done h
  rw [bind_of_done (layout_eq after)] at hbehind
  cases hbehind
  exact ⟨after, hfound, rfl⟩

theorem misses_lexeme {p : Reader α} {text : List Char} (h : Misses p (skipLayout text)) :
    Misses (lexeme p) text :=
  misses_bind_of_done (layout_eq text) (h.bind _)

theorem halts_lexeme {p : Reader α} {text : List Char} (h : Halts p (skipLayout text)) :
    Halts (lexeme p) text :=
  halts_bind_of_done (layout_eq text) (h.bind _)

theorem of_manyWithin_eq_done {p : Reader α} {c : Char} {budget text rest : List Char}
    {values : List α} (h : manyWithin p (c :: budget) text = .done values rest) :
    values = [] ∧ rest = text ∨
      ∃ first middle others, values = first :: others ∧ p text = .done first middle ∧
        manyWithin p budget middle = .done others rest := by
  simp only [manyWithin] at h
  split at h
  · rename_i first middle hfirst
    split at h
    · rename_i others after hothers
      cases h
      exact .inr ⟨first, middle, others, rfl, hfirst, hothers⟩
    · rename_i hother
      exact absurd h (hother _ _)
  · cases h
    exact .inl ⟨rfl, rfl⟩
  · cases h

/-- `p` reads the values one after the other from `text` and misses on what follows them. -/
inductive Rounds (p : Reader α) : List Char → List α → List Char → Prop where
  | stop {text : List Char} (hmiss : Misses p text) : Rounds p text [] text
  | round {text middle rest : List Char} {value : α} {values : List α}
      (hdone : p text = .done value middle) (hlt : middle.length < text.length)
      (hrounds : Rounds p middle values rest) : Rounds p text (value :: values) rest

theorem Rounds.misses {p : Reader α} {text rest : List Char} {values : List α}
    (h : Rounds p text values rest) : Misses p rest := by
  induction h with
  | stop hmiss => exact hmiss
  | round _ _ _ ih => exact ih

theorem Rounds.manyWithin_eq {p : Reader α} {text rest : List Char} {values : List α}
    (h : Rounds p text values rest) {budget : List Char} (hle : text.length ≤ budget.length) :
    manyWithin p budget text = .done values rest := by
  induction h generalizing budget with
  | stop hmiss =>
      obtain ⟨fault, hmiss⟩ := hmiss
      cases budget with
      | nil => rfl
      | cons b budget => simp only [manyWithin, hmiss]
  | round hdone hlt _ ih =>
      cases budget with
      | nil =>
          simp only [List.length_nil, Nat.le_zero] at hle
          omega
      | cons b budget =>
          simp only [List.length_cons] at hle
          simp only [manyWithin, hdone, ih (by omega : _ ≤ budget.length)]

theorem Rounds.many_eq {p : Reader α} {text rest : List Char} {values : List α}
    (h : Rounds p text values rest) : many p text = .done values rest :=
  h.manyWithin_eq (Nat.le_refl _)

end Stencil.Template.Reader
