import Stencil.Proofs.Extents
import Stencil.Proofs.Lexemes

/-! Readers on a text that is cut off somewhere behind what they take. Some take the same wherever
the cut is. Others go on as far as they can, so for these the cut has to lie behind a closing
bracket, which they do not run over. -/

namespace Stencil.Template

def closers : List Char :=
  [')', ']']

section

variable {p : Char → Bool} {c : Char} (hclosers : closers.all (fun d => !p d) = true)
include hclosers

theorem eq_false_of_mem_closers (hc : c ∈ closers) : p c = false := by
  simpa using List.all_eq_true.mp hclosers c hc

theorem not_mem_closers (hc : p c = true) : c ∉ closers := by
  intro hmem
  exact Bool.false_ne_true ((eq_false_of_mem_closers hclosers hmem).symm.trans hc)

end

theorem eq_append_of_cut {part gone taken left : List Char}
    (h : part ++ gone = taken ++ (left ++ gone)) : part = taken ++ left := by
  rw [← List.append_assoc] at h
  exact List.append_cancel_right h

theorem Stops.front {p : Char → Bool} {left gone : List Char} (h : Stops p (left ++ gone)) :
    Stops p left := by
  cases left with
  | nil => exact .nil
  | cons c left => exact .cons (h c rfl) left

theorem head?_ne_of_append {part gone : List Char} {c : Char} (h : (part ++ gone).head? ≠ some c) :
    part.head? ≠ some c := by
  cases part with
  | nil => exact nofun
  | cons d part => exact h

/-- What is left in front of a cut. Where an expression has to end there, a closing bracket is
left. -/
def Bounded (closed : Bool) (text : List Char) : Prop :=
  closed = true → ∃ c ∈ text, c ∈ closers

namespace Bounded

variable {closed : Bool} {text : List Char}

theorem free (text : List Char) : Bounded false text :=
  nofun

theorem append (h : Bounded closed text) (front : List Char) : Bounded closed (front ++ text) := by
  intro hclosed
  obtain ⟨c, hmem, hc⟩ := h hclosed
  exact ⟨c, List.mem_append_right front hmem, hc⟩

theorem of_mem {c : Char} (hc : c ∈ closers) (hmem : c ∈ text) : Bounded closed text :=
  fun _ => ⟨c, hmem, hc⟩

theorem ne_nil (h : Bounded true text) : text ≠ [] := by
  rintro rfl
  obtain ⟨c, hmem, -⟩ := h rfl
  cases hmem

/-- What runs over no closing bracket ends in front of the cut. -/
theorem exists_append (h : Bounded true text) {taken rest gone : List Char}
    (htaken : ∀ c ∈ taken, c ∉ closers) (happend : text ++ gone = taken ++ rest) :
    ∃ left, text = taken ++ left ∧ rest = left ++ gone ∧ Bounded true left := by
  obtain ⟨c, hmem, hc⟩ := h rfl
  obtain ⟨behind, htaken', -⟩ | ⟨left, htext, hrest⟩ := List.append_eq_append_iff.mp happend
  · refine absurd hc (htaken c ?_)
    rw [htaken']
    exact List.mem_append_left behind hmem
  · refine ⟨left, htext, hrest, .of_mem hc ?_⟩
    rw [htext] at hmem
    exact (List.mem_append.mp hmem).resolve_left fun hfront => htaken c hfront hc

end Bounded

namespace Reader

variable {α β : Type} {closed : Bool}

theorem of_orElse_eq_done_cases {p q : Reader α} {text rest : List Char} {value : α}
    (h : (p <|> q) text = .done value rest) :
    p text = .done value rest ∨ Misses p text ∧ q text = .done value rest := by
  change Reader.orElse p (fun _ => q) text = _ at h
  simp only [Reader.orElse] at h
  split at h
  · rename_i fault hmiss
    exact .inr ⟨⟨fault, hmiss⟩, h⟩
  · exact .inl h

theorem of_word_eq_done {chars text rest : List Char} {value : Unit}
    (h : word chars text = .done value rest) : text = chars ++ rest := by
  unfold word at h
  split at h
  · rename_i hword
    cases h
    obtain ⟨behind, rfl⟩ := List.isPrefixOf_iff_prefix.mp hword
    rw [List.drop_left]
  · cases h

theorem of_notBefore_eq_done {stopper : Char → Bool} {text rest : List Char} {value : Unit}
    (h : notBefore stopper text = .done value rest) : rest = text ∧ Stops stopper text := by
  unfold notBefore at h
  split at h
  · split at h
    · cases h
    · rename_i hc
      cases h
      exact ⟨rfl, .cons (Bool.eq_false_iff.mpr hc) _⟩
  · cases h
    exact ⟨rfl, .nil⟩

theorem notBefore_of_stops {stopper : Char → Bool} {text : List Char} (h : Stops stopper text) :
    notBefore stopper text = .done () text := by
  cases text with
  | nil => rfl
  | cons c rest => exact if_neg (Bool.eq_false_iff.mp (h c rfl))

theorem misses_char_iff {c : Char} {text : List Char} :
    Misses (char c) text ↔ text.head? ≠ some c := by
  refine ⟨?_, misses_char⟩
  rintro ⟨fault, h⟩ hhead
  obtain ⟨rest, rfl⟩ := List.head?_eq_some_iff.mp hhead
  rw [char_self] at h
  cases h

theorem Misses.of_bind_cases {p : Reader α} {f : α → Reader β} {text : List Char}
    (h : Misses (p >>= f) text) :
    Misses p text ∨ ∃ first middle, p text = .done first middle ∧ Misses (f first) middle := by
  obtain ⟨fault, h⟩ := h
  change Reader.bind p f text = _ at h
  simp only [Reader.bind] at h
  split at h
  · rename_i first middle hfirst
    exact .inr ⟨first, middle, hfirst, fault, h⟩
  · rename_i first hfirst
    exact .inl ⟨first, hfirst⟩
  · cases h

theorem Rounds.suffix {p : Reader α} (hp : Stays p) {text rest : List Char} {values : List α}
    (h : Rounds p text values rest) : rest <:+ text := by
  induction h with
  | stop => exact List.suffix_refl _
  | round hdone _ _ ih => exact ih.trans (hp.suffix hdone)

def Never (p : Reader α) : Prop :=
  ∀ text, ¬ Misses p text

theorem Misses.of_bind {p : Reader α} {f : α → Reader β} {text : List Char}
    (h : Misses (p >>= f) text) (hf : ∀ value, Never (f value)) : Misses p text := by
  obtain hfirst | ⟨first, middle, -, hmiss⟩ := h.of_bind_cases
  · exact hfirst
  · exact absurd hmiss (hf first middle)

namespace Never

variable {p : Reader α}

theorem bind (hp : Never p) {f : α → Reader β} (hf : ∀ value, Never (f value)) :
    Never (p >>= f) :=
  fun text h => hp text (h.of_bind hf)

theorem pure (value : α) : Never (Pure.pure value : Reader α) :=
  fun _ ⟨_, h⟩ => nomatch h

theorem cut (p : Reader α) : Never (Reader.cut p) := by
  rintro text ⟨fault, h⟩
  simp only [Reader.cut] at h
  split at h
  · cases h
  · rename_i hmiss
    exact hmiss fault h

theorem option (p : Reader α) : Never (Reader.option p) := by
  rintro text ⟨fault, h⟩
  simp only [Reader.option] at h
  split at h <;> cases h

theorem skipWhile (skipped : Char → Bool) : Never (Reader.skipWhile skipped) :=
  fun _ ⟨_, h⟩ => nomatch h

theorem manyWithin (p : Reader α) (budget : List Char) : Never (Reader.manyWithin p budget) := by
  induction budget with
  | nil => exact fun _ ⟨_, h⟩ => nomatch h
  | cons c budget ih =>
      rintro text ⟨fault, h⟩
      simp only [Reader.manyWithin] at h
      split at h
      · rename_i rest _
        split at h
        · cases h
        · exact ih rest ⟨fault, h⟩
      · cases h
      · cases h

theorem many (p : Reader α) : Never (Reader.many p) :=
  fun text => manyWithin p text text

end Never

theorem Misses.of_lexeme {p : Reader α} {text : List Char} (h : Misses (lexeme p) text) :
    Misses p (skipLayout text) := by
  obtain ⟨fault, h⟩ := h
  rw [lexeme, bind_of_done (layout_eq text)] at h
  refine Misses.of_bind ⟨fault, h⟩ fun value => ?_
  exact (Never.skipWhile _).bind fun _ => .pure value

/-- Where a reader ends in front of a cut, the text behind the cut makes no difference to it. -/
structure Settles (closed : Bool) (p : Reader α) : Prop where
  stays : Stays p
  eq : ∀ ⦃part gone left : List Char⦄ ⦃value : α⦄, Bounded closed left →
    p (part ++ gone) = .done value (left ++ gone) → p part = .done value left

/-- Where a reader misses, it also misses with the text cut off. -/
def KeepsMissing (closed : Bool) (p : Reader α) : Prop :=
  ∀ ⦃part gone : List Char⦄, Bounded closed part → Misses p (part ++ gone) → Misses p part

/-- A reader that runs over no closing bracket. -/
def TakesOpen (p : Reader α) : Prop :=
  ∀ ⦃text rest : List Char⦄ ⦃value : α⦄, p text = .done value rest →
    ∃ taken, text = taken ++ rest ∧ ∀ c ∈ taken, c ∉ closers

theorem TakesOpen.exists_done {p : Reader α} (hopen : TakesOpen p) (hp : Settles false p)
    {part gone rest : List Char} {value : α} (hpart : Bounded true part)
    (h : p (part ++ gone) = .done value rest) :
    ∃ left, rest = left ++ gone ∧ Bounded true left ∧ p part = .done value left := by
  obtain ⟨taken, htext, htaken⟩ := hopen h
  obtain ⟨left, -, rfl, hleft⟩ := hpart.exists_append htaken htext
  exact ⟨left, rfl, hleft, hp.eq (.free left) h⟩

namespace Settles

variable {p q : Reader α}

theorem pure (value : α) : Settles closed (Pure.pure value : Reader α) where
  stays := .pure value
  eq part gone left _ _ h := by
    obtain ⟨rfl, hrest⟩ := Reply.done.inj h
    rw [List.append_cancel_right hrest]
    rfl

theorem bind (hp : Settles closed p) {f : α → Reader β}
    (hf : ∀ value, Settles closed (f value)) : Settles closed (p >>= f) where
  stays := hp.stays.bind fun value => (hf value).stays
  eq part gone left value hleft h := by
    obtain ⟨first, middle, hfirst, hsecond⟩ := of_bind_eq_done h
    obtain ⟨front, rfl⟩ := (hf first).stays.suffix hsecond
    rw [← List.append_assoc] at hfirst hsecond
    exact (bind_of_done (hp.eq (hleft.append front) hfirst)).trans ((hf first).eq hleft hsecond)

theorem map (hp : Settles closed p) (f : α → β) : Settles closed (do return f (← p)) :=
  hp.bind fun _ => pure _

/-- That the first reader misses may depend on what the second one found. -/
theorem orElse_of (hp : Settles closed p) (hq : Settles closed q)
    (hmiss : ∀ ⦃part gone left : List Char⦄ ⦃value : α⦄, Bounded closed part →
      q (part ++ gone) = .done value (left ++ gone) → Misses p (part ++ gone) → Misses p part) :
    Settles closed (p <|> q) where
  stays := hp.stays.orElse hq.stays
  eq part gone left value hleft h := by
    obtain hfirst | ⟨hmissed, hsecond⟩ := of_orElse_eq_done_cases h
    · exact orElse_of_done (hp.eq hleft hfirst)
    · obtain ⟨front, hfront⟩ := hq.stays.suffix hsecond
      have hpart : Bounded closed part := eq_append_of_cut hfront.symm ▸ hleft.append front
      exact (hmiss hpart hsecond hmissed).orElse_eq.trans (hq.eq hleft hsecond)

theorem orElse (hp : Settles closed p) (hmiss : KeepsMissing closed p) (hq : Settles closed q) :
    Settles closed (p <|> q) :=
  hp.orElse_of hq fun _ _ _ _ hpart _ => hmiss hpart

theorem cut (hp : Settles closed p) : Settles closed (Reader.cut p) where
  stays := hp.stays.cut
  eq _ _ _ _ hleft h := cut_of_done (hp.eq hleft (of_cut_eq_done h))

theorem under (complaint : Complaint) (hp : Settles closed p) :
    Settles closed (Reader.under complaint p) where
  stays := hp.stays.under complaint
  eq _ _ _ _ hleft h := under_of_done complaint (hp.eq hleft (of_under_eq_done h))

theorem option (hp : Settles closed p) (hmiss : KeepsMissing closed p) :
    Settles closed (Reader.option p) where
  stays := hp.stays.option
  eq part gone left value hleft h := by
    simp only [Reader.option] at h
    split at h
    · rename_i hread
      obtain ⟨rfl, rfl⟩ := Reply.done.inj h
      exact option_of_done (hp.eq hleft hread)
    · rename_i fault hread
      obtain ⟨rfl, hrest⟩ := Reply.done.inj h
      obtain rfl := List.append_cancel_right hrest
      exact (hmiss hleft ⟨fault, hread⟩).option_eq
    · cases h

theorem spanned (hp : Settles closed p) : Settles closed (Reader.spanned p) where
  stays := hp.stays.spanned
  eq := by
    rintro part gone left ⟨read, value⟩ hleft h
    obtain rfl := eq_append_of_cut (append_of_spanned hp.stays h)
    simp only [Reader.spanned] at h
    split at h
    · rename_i hread
      obtain ⟨hvalue, rfl⟩ := Reply.done.inj h
      obtain ⟨-, rfl⟩ := Prod.mk.inj hvalue
      exact spanned_of_done (hp.eq hleft hread)
    · cases h
    · cases h

theorem rounds (hp : Settles closed p) {part gone left text rest : List Char} {values : List α}
    (h : Rounds p text values rest) (htext : text = part ++ gone) (hrest : rest = left ++ gone)
    (hleft : Bounded closed left) (hstop : Misses p left) : Rounds p part values left := by
  induction h generalizing part with
  | stop =>
      rw [List.append_cancel_right (htext.symm.trans hrest)]
      exact .stop hstop
  | @round text middle rest value values hdone hlt hrounds ih =>
      subst htext hrest
      obtain ⟨front, rfl⟩ := hrounds.suffix hp.stays
      rw [← List.append_assoc] at hdone hlt
      refine .round (hp.eq (hleft.append front) hdone) ?_
        (ih (List.append_assoc front left gone).symm rfl)
      simp only [List.length_append] at hlt ⊢
      omega

theorem many (hp : Settles closed p) (hadvances : Advances p) (hnil : Misses p [])
    (hmiss : KeepsMissing closed p) : Settles closed (Reader.many p) where
  stays := hp.stays.many
  eq part gone left values hleft h := by
    have hrounds := hadvances.rounds_of_many hnil h
    exact (hp.rounds hrounds rfl rfl hleft (hmiss hleft hrounds.misses)).many_eq

theorem char (c : Char) : Settles closed (Reader.char c) where
  stays := .char c
  eq part gone left _ _ h := by
    obtain rfl : part = [c] ++ left := eq_append_of_cut (of_char_eq_done h)
    exact char_self c left

theorem word (chars : List Char) : Settles closed (Reader.word chars) where
  stays := .word chars
  eq part gone left _ _ h := by
    obtain rfl := eq_append_of_cut (of_word_eq_done h)
    exact word_append chars left

theorem skipWhile (skipped : Char → Bool) : Settles closed (Reader.skipWhile skipped) where
  stays := .skipWhile skipped
  eq part gone left _ _ h := by
    have hdrop : (part ++ gone).dropWhile skipped = left ++ gone := (Reply.done.inj h).2
    have hstops : Stops skipped (left ++ gone) := hdrop ▸ .dropWhile skipped (part ++ gone)
    have htext := List.takeWhile_append_dropWhile (p := skipped) (l := part ++ gone)
    have htaken : ∀ c ∈ (part ++ gone).takeWhile skipped, skipped c = true :=
      fun _ => List.mem_takeWhile_imp
    rw [hdrop] at htext
    rw [eq_append_of_cut htext.symm]
    exact congrArg (Reply.done ()) (hstops.front.dropWhile_append htaken)

theorem lexeme (hp : Settles closed p) : Settles closed (Reader.lexeme p) :=
  (skipWhile _).bind fun _ => hp.bind fun value => (skipWhile _).bind fun _ => pure value

theorem notBefore (stopper : Char → Bool) : Settles closed (Reader.notBefore stopper) where
  stays := .notBefore stopper
  eq part gone left _ _ h := by
    obtain ⟨hrest, hstops⟩ := of_notBefore_eq_done h
    obtain rfl := List.append_cancel_right hrest
    exact notBefore_of_stops hstops.front

end Settles

namespace TakesOpen

theorem skipWhile {skipped : Char → Bool} (h : closers.all (fun c => !skipped c) = true) :
    TakesOpen (Reader.skipWhile skipped) := by
  intro text rest _ hread
  obtain ⟨-, rfl⟩ := Reply.done.inj hread
  refine ⟨text.takeWhile skipped, (List.takeWhile_append_dropWhile ..).symm, fun c hc => ?_⟩
  exact not_mem_closers h (List.mem_takeWhile_imp hc)

theorem char {c : Char} (hc : c ∉ closers) : TakesOpen (Reader.char c) :=
  fun _ _ _ h => ⟨[c], of_char_eq_done h, by simpa using hc⟩

theorem word {chars : List Char} (h : ∀ c ∈ chars, c ∉ closers) : TakesOpen (Reader.word chars) :=
  fun _ _ _ hread => ⟨chars, of_word_eq_done hread, h⟩

end TakesOpen

theorem skipLayout_append {part : List Char} (hpart : Bounded true part) (gone : List Char) :
    skipLayout (part ++ gone) = skipLayout part ++ gone ∧ Bounded true (skipLayout part) := by
  have hopen : TakesOpen layout := .skipWhile rfl
  obtain ⟨left, hrest, hleft, hread⟩ := hopen.exists_done (.skipWhile _) hpart (layout_eq _)
  obtain rfl : skipLayout part = left := (Reply.done.inj hread).2
  exact ⟨hrest, hleft⟩

namespace KeepsMissing

variable {p q : Reader α}

theorem bounded (hp : KeepsMissing false p) : KeepsMissing closed p :=
  fun part _ _ h => hp (.free part) h

theorem orElse (hp : KeepsMissing closed p) (hq : KeepsMissing closed q) :
    KeepsMissing closed (p <|> q) := by
  intro part gone hpart h
  obtain ⟨hfirst, hsecond⟩ := h.of_orElse
  exact (hp hpart hfirst).orElse (hq hpart hsecond)

theorem bind_never (hp : KeepsMissing closed p) {f : α → Reader β} (hf : ∀ value, Never (f value)) :
    KeepsMissing closed (p >>= f) :=
  fun _ _ hpart h => (hp hpart (h.of_bind hf)).bind f

theorem char (c : Char) : KeepsMissing closed (Reader.char c) :=
  fun _ _ _ h => misses_char (head?_ne_of_append (misses_char_iff.mp h))

theorem after_char (c : Char) (hp : KeepsMissing false p) :
    KeepsMissing false (do Reader.char c; p) := by
  intro part gone hpart h
  obtain hmiss | ⟨_, middle, hfirst, hmiss⟩ := h.of_bind_cases
  · exact (char c hpart hmiss).bind _
  · cases part with
    | nil => exact ⟨_, rfl⟩
    | cons d part =>
        obtain ⟨rfl, rfl⟩ := List.cons.inj (of_char_eq_done hfirst)
        exact misses_bind_of_done (char_self _ part) (hp (.free part) hmiss)

theorem word (chars : List Char) : KeepsMissing closed (Reader.word chars) := by
  intro part gone _ h
  refine misses_word (Bool.eq_false_iff.mpr fun hword => ?_)
  obtain ⟨behind, rfl⟩ := List.isPrefixOf_iff_prefix.mp hword
  obtain ⟨fault, h⟩ := h
  rw [List.append_assoc, word_append] at h
  cases h

theorem notBefore (stopper : Char → Bool) : KeepsMissing true (Reader.notBefore stopper) := by
  intro part gone hpart h
  obtain ⟨c, rest, rfl⟩ := List.exists_cons_of_ne_nil hpart.ne_nil
  obtain ⟨fault, h⟩ := h
  simp only [List.cons_append, Reader.notBefore] at h ⊢
  split at h
  · rename_i hc
    exact misses_of_eq (if_pos hc)
  · cases h

theorem lexeme (hp : KeepsMissing true p) : KeepsMissing true (Reader.lexeme p) := by
  intro part gone hpart h
  obtain ⟨hskip, hleft⟩ := skipLayout_append hpart gone
  have hmiss := h.of_lexeme
  rw [hskip] at hmiss
  exact misses_lexeme (hp hleft hmiss)

end KeepsMissing

structure Local (p : Reader α) : Prop where
  settles : Settles true p
  keepsMissing : KeepsMissing true p

namespace Local

variable {p q : Reader α}

theorem orElse (hp : p.Local) (hq : q.Local) : (p <|> q).Local where
  settles := hp.settles.orElse hp.keepsMissing hq.settles
  keepsMissing := hp.keepsMissing.orElse hq.keepsMissing

theorem map (hp : p.Local) (f : α → β) : (do return f (← p)).Local where
  settles := hp.settles.map f
  keepsMissing := hp.keepsMissing.bind_never fun _ => .pure _

theorem lexeme (hp : p.Local) : (lexeme p).Local where
  settles := hp.settles.lexeme
  keepsMissing := hp.keepsMissing.lexeme

theorem char (c : Char) : (char c).Local where
  settles := .char c
  keepsMissing := .char c

theorem word (chars : List Char) : (word chars).Local where
  settles := .word chars
  keepsMissing := .word chars

theorem notBefore (stopper : Char → Bool) : (notBefore stopper).Local where
  settles := .notBefore stopper
  keepsMissing := .notBefore stopper

theorem bind (hp : p.Local) (hsettles : Settles false p) (hopen : TakesOpen p) {f : α → Reader β}
    (hf : ∀ value, (f value).Local) : (p >>= f).Local where
  settles := hp.settles.bind fun value => (hf value).settles
  keepsMissing := by
    intro part gone hpart h
    obtain hmiss | ⟨first, middle, hfirst, hmiss⟩ := h.of_bind_cases
    · exact (hp.keepsMissing hpart hmiss).bind f
    · obtain ⟨left, rfl, hleft, hread⟩ := hopen.exists_done hsettles hpart hfirst
      exact misses_bind_of_done hread ((hf first).keepsMissing hleft hmiss)

end Local

namespace Settles

variable {p : Reader α} (hp : Settles true p) {c : Char} (hc : c ∈ closers)
include hp hc

/-- Behind the bracket that closes it, an expression may be cut off anywhere. -/
theorem before_closer (f : α → β) :
    Settles closed (do
      let value ← p
      Reader.char c
      return f value) where
  stays := hp.stays.bind fun value => (Stays.char c).bind fun _ => .pure (f value)
  eq part gone left value _ h := by
    obtain ⟨found, middle, hfound, hbehind⟩ := of_bind_eq_done h
    obtain ⟨_, rest, hchar, hpure⟩ := of_bind_eq_done hbehind
    obtain ⟨rfl, rfl⟩ := Reply.done.inj hpure
    rw [of_char_eq_done hchar, ← List.cons_append] at hfound
    have hread := hp.eq (.of_mem hc (List.mem_cons_self ..)) hfound
    rw [bind_of_done hread, bind_of_done (char_self c left)]
    rfl

omit hc in
theorem separated_eq {part gone left : List Char} {values : List α} (hleft : Bounded true left)
    (hcomma : left.head? ≠ some ',') (hmiss : Misses p (left ++ gone) → Misses p left)
    (h : separated (Reader.char ',') p (part ++ gone) = .done values (left ++ gone)) :
    separated (Reader.char ',') p part = .done values left := by
  let round : Reader α := do
    let _ ← Reader.char ','
    p
  have hround : Settles true round := (char ',').bind fun _ => hp
  have hadvances : Advances round := (advances_char ',').bind fun _ => hp.stays
  have hstop : Misses round left := (misses_char hcomma).bind _
  obtain hread | ⟨hmissed, hnone⟩ := of_orElse_eq_done_cases h
  · obtain ⟨first, middle, hfirst, hbehind⟩ := of_bind_eq_done hread
    obtain ⟨others, rest, hothers, hpure⟩ := of_bind_eq_done hbehind
    obtain ⟨rfl, rfl⟩ := Reply.done.inj hpure
    have hrounds := hadvances.rounds_of_many ⟨_, rfl⟩ hothers
    obtain ⟨front, rfl⟩ := hrounds.suffix hround.stays
    rw [← List.append_assoc] at hfirst hrounds
    have hsettled := hround.rounds hrounds rfl rfl hleft hstop
    refine orElse_of_done ?_
    rw [bind_of_done (hp.eq (hleft.append front) hfirst), bind_of_done hsettled.many_eq]
    rfl
  · obtain ⟨rfl, hrest⟩ := Reply.done.inj hnone
    obtain rfl := List.append_cancel_right hrest
    have hmissed := hmissed.of_bind fun first => (Never.many _).bind fun _ => .pure _
    exact ((hmiss hmissed).bind _).orElse_eq

/-- Items up to a closing bracket. Where there are none, the item has to miss on that bracket. -/
theorem items
    (hmiss : ∀ part gone, Misses p (c :: (part ++ gone)) → Misses p (c :: part)) (f : List α → β) :
    Settles closed (do
      let values ← separated (Reader.char ',') (Reader.lexeme p)
      layout
      Reader.char c
      return f values) where
  stays := ((Stays.char ',').separated hp.stays.lexeme).bind fun values =>
    (Stays.skipWhile _).bind fun _ => (Stays.char c).bind fun _ => .pure (f values)
  eq part gone left value _ h := by
    obtain ⟨values, after, hvalues, hbehind⟩ := of_bind_eq_done h
    rw [bind_of_done (layout_eq after)] at hbehind
    obtain ⟨_, rest, hchar, hpure⟩ := of_bind_eq_done hbehind
    obtain ⟨rfl, rfl⟩ := Reply.done.inj hpure
    obtain ⟨blanks, hblanks, rfl⟩ : ∃ blanks : List Char,
        (∀ d ∈ blanks, Text.isLayout d = true) ∧ after = blanks ++ c :: left ++ gone := by
      refine ⟨after.takeWhile Text.isLayout, fun _ => List.mem_takeWhile_imp, ?_⟩
      have hafter := List.takeWhile_append_dropWhile (p := Text.isLayout) (l := after)
      rw [← skipLayout, of_char_eq_done hchar] at hafter
      rw [List.append_assoc]
      exact hafter.symm
    have hleft : Bounded true (blanks ++ c :: left) := .of_mem hc (by simp)
    have hskip : skipLayout (blanks ++ c :: left) = c :: left :=
      (Stops.cons (eq_false_of_mem_closers rfl hc) left).dropWhile_append hblanks
    have hcomma : (blanks ++ c :: left).head? ≠ some ',' := by
      cases blanks with
      | nil =>
          intro heq
          cases heq
          exact absurd hc (by decide)
      | cons d blanks =>
          intro heq
          cases heq
          exact absurd (hblanks ',' (List.mem_cons_self ..)) nofun
    have hnone (h : Misses (Reader.lexeme p) (blanks ++ c :: left ++ gone)) :
        Misses (Reader.lexeme p) (blanks ++ c :: left) := by
      have hmissed := h.of_lexeme
      rw [(skipLayout_append hleft gone).1, hskip] at hmissed
      refine misses_lexeme ?_
      rw [hskip]
      exact hmiss left gone hmissed
    have hread := hp.lexeme.separated_eq hleft hcomma hnone hvalues
    rw [bind_of_done hread, bind_of_done (layout_eq _), hskip, bind_of_done (char_self c left)]
    rfl

end Settles

end Reader

end Stencil.Template
