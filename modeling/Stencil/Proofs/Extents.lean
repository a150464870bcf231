import Stencil.Proofs.Reading

/-! Readers stay inside the text that they are given: what they leave is its end, and what they
complain about is a piece of it. An empty piece is the end of the text, or else an entry of a map
lacks something there. -/

namespace Stencil.Template

def Location.LiesIn (l : Location) (text : List Char) : Prop :=
  ∃ front back, text = front ++ (l.piece ++ back) ∧ l.behind = back.length

theorem Location.liesIn_of_suffix {piece text : List Char} (h : piece <:+ text) :
    LiesIn { piece, behind := 0 } text := by
  obtain ⟨front, rfl⟩ := h
  exact ⟨front, [], by rw [List.append_nil], rfl⟩

theorem Location.LiesIn.mono {l : Location} {part text : List Char} (h : l.LiesIn part)
    (hpart : part <:+ text) : l.LiesIn text := by
  obtain ⟨before, rfl⟩ := hpart
  obtain ⟨front, back, rfl, hback⟩ := h
  exact ⟨before ++ front, back, by rw [List.append_assoc], hback⟩

/-- What an entry of a map complains about where it has no equals sign or no value. -/
def Complaint.isGap : Complaint → Bool
  | .expectedEquals | .expectedValue | .unsupportedMapValue => true
  | _ => false

namespace Fault

/-- Nothing stands where an entry of a map needs an equals sign or a value: the comma or the brace
that ends the entry comes right there. -/
structure IsGapIn (fault : Fault) (text : List Char) : Prop where
  complaint : fault.complaint.isGap = true
  piece : fault.location.piece = []
  place : ∃ front c back, text = front ++ c :: back ∧
    fault.location.behind = back.length + 1 ∧ (c = ',' ∨ c = '\x7d')

/-- The fault points to a piece of the text. If that is empty, it is the end or a gap. -/
structure LiesIn (fault : Fault) (text : List Char) : Prop where
  place : fault.location.LiesIn text
  empty : fault.location.piece = [] → fault.location.behind = 0 ∨ fault.IsGapIn text

/-- The fault points to a piece of the text that is not empty, or to a gap. -/
structure LiesWithin (fault : Fault) (text : List Char) : Prop where
  place : fault.location.LiesIn text
  empty : fault.location.piece = [] → fault.IsGapIn text

section

variable {fault : Fault} {part text : List Char}

theorem liesIn_of_suffix (complaint : Complaint) (h : part <:+ text) :
    LiesIn { complaint, location := { piece := part, behind := 0 } } text :=
  ⟨Location.liesIn_of_suffix h, fun _ => .inl rfl⟩

theorem liesWithin_of_suffix (complaint : Complaint) (h : part <:+ text) (hne : part ≠ []) :
    LiesWithin { complaint, location := { piece := part, behind := 0 } } text :=
  ⟨Location.liesIn_of_suffix h, fun hempty => absurd hempty hne⟩

theorem LiesWithin.liesIn (h : fault.LiesWithin text) : fault.LiesIn text :=
  ⟨h.place, fun hempty => .inr (h.empty hempty)⟩

theorem IsGapIn.mono (h : fault.IsGapIn part) (hpart : part <:+ text) : fault.IsGapIn text := by
  obtain ⟨before, rfl⟩ := hpart
  obtain ⟨front, c, back, rfl, hbehind, hc⟩ := h.place
  exact ⟨h.complaint, h.piece, before ++ front, c, back, by rw [List.append_assoc], hbehind, hc⟩

theorem LiesIn.mono (h : fault.LiesIn part) (hpart : part <:+ text) : fault.LiesIn text :=
  ⟨h.place.mono hpart, fun hempty => (h.empty hempty).imp_right (·.mono hpart)⟩

theorem LiesWithin.mono (h : fault.LiesWithin part) (hpart : part <:+ text) :
    fault.LiesWithin text :=
  ⟨h.place.mono hpart, fun hempty => (h.empty hempty).mono hpart⟩

/-- Complaints about gaps are not bare, so a surrounding construct leaves them as they are. -/
theorem IsGapIn.under (h : fault.IsGapIn text) (complaint : Complaint) :
    (fault.under complaint).IsGapIn text := by
  have hbare : fault.complaint.isBare = false := by
    have hgap := h.complaint
    generalize fault.complaint = found at hgap
    cases found <;> first | rfl | cases hgap
  simp only [Fault.under, hbare, Bool.false_eq_true, if_false]
  exact h

theorem LiesIn.under (h : fault.LiesIn text) (complaint : Complaint) :
    (fault.under complaint).LiesIn text := by
  have hlocation : (fault.under complaint).location = fault.location := by
    unfold Fault.under
    split <;> rfl
  refine ⟨hlocation ▸ h.place, fun hempty => ?_⟩
  rw [hlocation] at hempty ⊢
  exact (h.empty hempty).imp_right (·.under complaint)

theorem LiesWithin.before (h : fault.LiesWithin part) (front back : List Char) :
    (fault.before back.length).LiesWithin (front ++ (part ++ back)) where
  place := by
    obtain ⟨inFront, behind, rfl, hbehind⟩ := h.place
    refine ⟨front ++ inFront, behind ++ back, by simp only [List.append_assoc, Fault.before], ?_⟩
    simp only [Fault.before, hbehind, List.length_append]
  empty hempty := by
    have hgap := h.empty hempty
    obtain ⟨inFront, c, behind, rfl, hbehind, hc⟩ := hgap.place
    refine ⟨hgap.complaint, hgap.piece, front ++ inFront, c, behind ++ back, ?_, ?_, hc⟩
    · simp only [List.append_assoc, List.cons_append]
    · simp only [Fault.before, hbehind, List.length_append]
      omega

end

end Fault

/-- A value leaves an end of the text, and the faults of misses and of halts are as they may be. -/
inductive Reply.Ends {α : Type} (text : List Char) (missed halted : Fault → Prop) :
    Reply α → Prop where
  | done (value : α) {rest : List Char} (h : rest <:+ text) :
      Ends text missed halted (.done value rest)
  | miss {fault : Fault} (h : missed fault) : Ends text missed halted (.miss fault)
  | halt {fault : Fault} (h : halted fault) : Ends text missed halted (.halt fault)

/-- A value leaves an end of the text, and a fault points into the text. -/
abbrev Reply.StaysIn {α : Type} (text : List Char) : Reply α → Prop :=
  Ends text (·.LiesIn text) (·.LiesIn text)

/-- The fault does not point to the end of the text either. -/
abbrev Reply.StaysWithin {α : Type} (text : List Char) : Reply α → Prop :=
  Ends text (·.LiesWithin text) (·.LiesWithin text)

theorem Reply.Ends.mono {α : Type} {part text : List Char} {missed halted missed' halted' :
    Fault → Prop} {reply : Reply α} (h : reply.Ends part missed halted) (hpart : part <:+ text)
    (hmissed : ∀ fault, missed fault → missed' fault)
    (hhalted : ∀ fault, halted fault → halted' fault) : reply.Ends text missed' halted' := by
  cases h with
  | done value hrest => exact .done value (hrest.trans hpart)
  | miss hfault => exact .miss (hmissed _ hfault)
  | halt hfault => exact .halt (hhalted _ hfault)

theorem Reply.StaysIn.mono {α : Type} {reply : Reply α} {part text : List Char}
    (h : reply.StaysIn part) (hpart : part <:+ text) : reply.StaysIn text :=
  Ends.mono h hpart (fun _ hfault => hfault.mono hpart) fun _ hfault => hfault.mono hpart

theorem Reply.StaysWithin.mono {α : Type} {reply : Reply α} {part text : List Char}
    (h : reply.StaysWithin part) (hpart : part <:+ text) : reply.StaysWithin text :=
  Ends.mono h hpart (fun _ hfault => hfault.mono hpart) fun _ hfault => hfault.mono hpart

theorem Reply.StaysWithin.staysIn {α : Type} {reply : Reply α} {text : List Char}
    (h : reply.StaysWithin text) : reply.StaysIn text :=
  Ends.mono h (List.suffix_refl text) (fun _ hfault => hfault.liesIn) fun _ hfault => hfault.liesIn

namespace Reader

variable {α β : Type}

def Stays (p : Reader α) : Prop :=
  ∀ text, (p text).StaysIn text

theorem Stays.suffix {p : Reader α} (h : Stays p) {text rest : List Char} {value : α}
    (hdone : p text = .done value rest) : rest <:+ text := by
  have hreply := h text
  rw [hdone] at hreply
  cases hreply with
  | done _ hrest => exact hrest

theorem stays_missing (complaint : Complaint) (text : List Char) :
    (missing complaint text : Reply α).StaysIn text :=
  .miss (Fault.liesIn_of_suffix complaint (List.suffix_refl text))

theorem stays_halting (complaint : Complaint) {part text : List Char} (h : part <:+ text) :
    (halting complaint part : Reply α).StaysIn text :=
  .halt (Fault.liesIn_of_suffix complaint h)

theorem ends_bind {p : Reader α} {f : α → Reader β} {part text : List Char}
    {missed halted : Fault → Prop} (hp : (p part).Ends text missed halted)
    (hf : ∀ value rest, rest <:+ text → (f value rest).Ends text missed halted) :
    (Reader.bind p f part).Ends text missed halted := by
  simp only [Reader.bind]
  generalize p part = reply at hp
  cases hp with
  | done value hrest => exact hf value _ hrest
  | miss hfault => exact .miss hfault
  | halt hfault => exact .halt hfault

theorem ends_wholly {p : Reader α} {text : List Char} {missed halted : Fault → Prop}
    (hp : (p text).Ends text missed halted)
    (hmissed : ∀ rest, rest <:+ text → rest ≠ [] →
      missed { complaint := .expectedEndOfText, location := { piece := rest, behind := 0 } }) :
    (wholly p text).Ends text missed halted := by
  simp only [wholly]
  generalize p text = reply at hp
  cases hp with
  | @done value rest hrest =>
      cases rest with
      | nil => exact .done value hrest
      | cons c rest => exact .miss (hmissed _ hrest (List.cons_ne_nil c rest))
  | miss hfault => exact .miss hfault
  | halt hfault => exact .halt hfault

/-- A reader that refuses to go on points back to where it came from. -/
theorem staysIn_refusing {c : Prop} [Decidable c] (complaint : Complaint) {p : Reader α}
    {start rest text : List Char} (hstart : start <:+ text) (hp : (p rest).StaysIn text) :
    ((if c then fun _ => halting complaint start else p : Reader α) rest).StaysIn text := by
  cases ‹Decidable c› with
  | isTrue _ => exact stays_halting complaint hstart
  | isFalse _ => exact hp

theorem manyWithin_cases {p : Reader α}
    (hp : ∀ text rest value, p text = .done value rest → rest <:+ text)
    (budget text : List Char) :
    (∃ values rest, manyWithin p budget text = .done values rest ∧ rest <:+ text) ∨
      ∃ part fault, part <:+ text ∧ p part = .halt fault ∧
        manyWithin p budget text = .halt fault := by
  induction budget generalizing text with
  | nil => exact .inl ⟨[], text, rfl, List.suffix_refl text⟩
  | cons _ budget ih =>
      cases hfirst : p text with
      | miss _ => exact .inl ⟨[], text, by simp only [manyWithin, hfirst], List.suffix_refl text⟩
      | halt fault =>
          exact .inr ⟨text, fault, List.suffix_refl text, hfirst, by
            simp only [manyWithin, hfirst]⟩
      | done value middle =>
          have hmiddle := hp text middle value hfirst
          obtain ⟨values, rest, hread, hrest⟩ | ⟨part, fault, hpart, hfault, hread⟩ := ih middle
          · exact .inl ⟨value :: values, rest, by simp only [manyWithin, hfirst, hread],
              hrest.trans hmiddle⟩
          · exact .inr ⟨part, fault, hpart.trans hmiddle, hfault, by
              simp only [manyWithin, hfirst, hread]⟩

namespace Stays

variable {p q : Reader α}

theorem pure (value : α) : Stays (Pure.pure value : Reader α) :=
  fun text => .done value (List.suffix_refl text)

theorem bind (hp : Stays p) {f : α → Reader β} (hf : ∀ value, Stays (f value)) :
    Stays (p >>= f) :=
  fun text => ends_bind (hp text) fun value rest hrest => (hf value rest).mono hrest

theorem map (hp : Stays p) (f : α → β) : Stays (f <$> p) :=
  hp.bind fun value => pure (f value)

theorem orElse (hp : Stays p) (hq : Stays q) : Stays (p <|> q) := by
  intro text
  change (Reader.orElse p (fun _ => q) text).StaysIn text
  simp only [Reader.orElse]
  have hreply := hp text
  generalize p text = reply at hreply
  cases hreply with
  | done value hrest => exact .done value hrest
  | miss _ => exact hq text
  | halt hfault => exact .halt hfault

theorem cut (hp : Stays p) : Stays (Reader.cut p) := by
  intro text
  simp only [Reader.cut]
  have hreply := hp text
  generalize p text = reply at hreply
  cases hreply with
  | done value hrest => exact .done value hrest
  | miss hfault => exact .halt hfault
  | halt hfault => exact .halt hfault

theorem under (complaint : Complaint) (hp : Stays p) : Stays (Reader.under complaint p) := by
  intro text
  simp only [Reader.under]
  have hreply := hp text
  generalize p text = reply at hreply
  cases hreply with
  | done value hrest => exact .done value hrest
  | miss hfault => exact .miss (hfault.under complaint)
  | halt hfault => exact .halt (hfault.under complaint)

theorem option (hp : Stays p) : Stays (Reader.option p) := by
  intro text
  simp only [Reader.option]
  have hreply := hp text
  generalize p text = reply at hreply
  cases hreply with
  | done value hrest => exact .done _ hrest
  | miss _ => exact .done _ (List.suffix_refl text)
  | halt hfault => exact .halt hfault

theorem manyWithin (hp : Stays p) (budget : List Char) : Stays (Reader.manyWithin p budget) := by
  intro text
  obtain ⟨values, rest, hread, hrest⟩ | ⟨part, fault, hpart, hfault, hread⟩ :=
    manyWithin_cases (fun _ _ _ => hp.suffix) budget text
  · rw [hread]
    exact .done values hrest
  · have hreply := (hp part).mono hpart
    rw [hfault] at hreply
    cases hreply with
    | halt hlies => exact hread ▸ .halt hlies

theorem many (hp : Stays p) : Stays (Reader.many p) :=
  fun text => hp.manyWithin text text

theorem separated {separator : Reader β} (hseparator : Stays separator) (hp : Stays p) :
    Stays (Reader.separated separator p) := by
  refine orElse (hp.bind fun first => ?_) (pure [])
  exact (many (hseparator.bind fun _ => hp)).bind fun others => pure (first :: others)

theorem wholly (hp : Stays p) : Stays (Reader.wholly p) :=
  fun text => ends_wholly (hp text) fun _ hrest _ => Fault.liesIn_of_suffix _ hrest

theorem spanned (hp : Stays p) : Stays (Reader.spanned p) := by
  intro text
  simp only [Reader.spanned]
  have hreply := hp text
  generalize p text = reply at hreply
  cases hreply with
  | done value hrest => exact .done _ hrest
  | miss hfault => exact .miss hfault
  | halt hfault => exact .halt hfault

theorem char (c : Char) : Stays (Reader.char c) := by
  intro text
  unfold Reader.char
  split
  · split
    · exact .done () (List.suffix_cons _ _)
    · exact stays_missing _ _
  · exact stays_missing _ _

theorem word (chars : List Char) : Stays (Reader.word chars) := by
  intro text
  unfold Reader.word
  split
  · exact .done () (List.drop_suffix _ _)
  · exact stays_missing _ _

theorem skipWhile (ok : Char → Bool) : Stays (Reader.skipWhile ok) :=
  fun _ => .done () (List.dropWhile_suffix _)

theorem lexeme (hp : Stays p) : Stays (Reader.lexeme p) :=
  (skipWhile _).bind fun _ => hp.bind fun value => (skipWhile _).bind fun _ => pure value

theorem notBefore (bad : Char → Bool) : Stays (Reader.notBefore bad) := by
  intro text
  unfold Reader.notBefore
  split
  · split
    · exact stays_missing _ _
    · exact .done () (List.suffix_refl _)
  · exact .done () (List.suffix_refl _)

end Stays

theorem append_of_spanned {p : Reader α} (hp : Stays p) {text read rest : List Char} {value : α}
    (h : spanned p text = .done (read, value) rest) : text = read ++ rest := by
  obtain ⟨front, hfront⟩ := hp.spanned.suffix h
  simp only [spanned] at h
  split at h
  · cases h
    rw [← hfront]
    simp
  · cases h
  · cases h

def Advances (p : Reader α) : Prop :=
  ∀ ⦃text rest value⦄, p text = .done value rest → rest.length < text.length

theorem advances_char (c : Char) : Advances (char c) := by
  intro text rest value h
  unfold char at h
  split at h
  · split at h
    · cases h
      exact Nat.lt_succ_self _
    · cases h
  · cases h

theorem Advances.bind {p : Reader α} (hp : Advances p) {f : α → Reader β}
    (hf : ∀ value, Stays (f value)) : Advances (p >>= f) := by
  intro text rest value h
  obtain ⟨first, middle, hfirst, hrest⟩ := of_bind_eq_done h
  exact Nat.lt_of_le_of_lt ((hf first).suffix hrest).length_le (hp hfirst)

theorem Advances.orElse {p q : Reader α} (hp : Advances p) (hq : Advances q) :
    Advances (p <|> q) := by
  intro text rest value h
  obtain h | h := of_orElse_eq_done h
  · exact hp h
  · exact hq h

theorem Advances.spanned {p : Reader α} (hp : Advances p) : Advances (spanned p) := by
  intro text rest value h
  simp only [Reader.spanned] at h
  split at h
  · rename_i hread
    cases h
    exact hp hread
  · cases h
  · cases h

/-- The budget of a repetition does not matter, if every round of it takes a character. -/
theorem Advances.manyWithin_eq {p : Reader α} (hp : Advances p) (hnil : Misses p [])
    {budget other text : List Char} (hbudget : text.length ≤ budget.length)
    (hother : text.length ≤ other.length) :
    manyWithin p budget text = manyWithin p other text := by
  have hempty (b : List Char) : manyWithin p b [] = .done [] [] := by
    obtain ⟨fault, hnil⟩ := hnil
    cases b with
    | nil => rfl
    | cons c b => simp only [manyWithin, hnil]
  induction budget generalizing other text with
  | nil =>
      obtain rfl := List.eq_nil_of_length_eq_zero (Nat.le_zero.mp hbudget)
      rw [hempty, hempty]
  | cons c budget ih =>
      cases other with
      | nil =>
          obtain rfl := List.eq_nil_of_length_eq_zero (Nat.le_zero.mp hother)
          rw [hempty, hempty]
      | cons d other =>
          simp only [manyWithin]
          cases hread : p text with
          | miss fault => rfl
          | halt fault => rfl
          | done value rest =>
              have hlt := hp hread
              simp only [List.length_cons] at hbudget hother
              simp only [ih (by omega : rest.length ≤ budget.length)
                (by omega : rest.length ≤ other.length)]

theorem Advances.many_of_done {p : Reader α} (hp : Advances p) (hnil : Misses p [])
    {text rest : List Char} {value : α} (h : p text = .done value rest) :
    many p text = ((value :: ·) <$> many p) rest := by
  have hlt := hp h
  obtain ⟨c, others, rfl⟩ := List.exists_cons_of_length_pos (Nat.zero_lt_of_lt hlt)
  have hrest : manyWithin p others rest = many p rest :=
    hp.manyWithin_eq hnil (Nat.le_of_lt_succ hlt) (Nat.le_refl _)
  change manyWithin p (c :: others) (c :: others) = Reader.bind (many p) _ rest
  simp only [manyWithin, h, hrest, Reader.bind]
  cases many p rest <;> rfl

theorem Advances.rounds_of_many {p : Reader α} (hp : Advances p) (hnil : Misses p [])
    {text rest : List Char} {values : List α} (h : many p text = .done values rest) :
    Rounds p text values rest := by
  induction hlength : text.length using Nat.strong_induction_on generalizing text values with
  | _ length ih =>
      subst hlength
      cases hread : p text with
      | miss fault =>
          cases (Rounds.stop ⟨fault, hread⟩).many_eq.symm.trans h
          exact .stop ⟨fault, hread⟩
      | halt fault =>
          cases text with
          | nil =>
              obtain ⟨_, hnil⟩ := hnil
              cases hnil.symm.trans hread
          | cons c others => simp only [many, manyWithin, hread] at h; cases h
      | done value middle =>
          rw [hp.many_of_done hnil hread] at h
          obtain ⟨others, last, hothers, hpure⟩ := of_bind_eq_done h
          cases hpure
          exact .round hread (hp hread) (ih _ (hp hread) hothers rfl)

end Reader

end Stencil.Template
