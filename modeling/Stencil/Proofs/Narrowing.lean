import Stencil.Proofs.Reading

namespace Stencil.Template

/-- The first reply halts, or it is the second one, and a value in it satisfies `P`. -/
inductive Reply.Narrows {α : Type} (P : α → Prop) : Reply α → Reply α → Prop where
  | halt (fault : Fault) (other : Reply α) : Narrows P (.halt fault) other
  | miss (fault : Fault) : Narrows P (.miss fault) (.miss fault)
  | done {value : α} (rest : List Char) (h : P value) :
      Narrows P (.done value rest) (.done value rest)

/-- The first result is an error, or it is the second one, with a value that satisfies `P`. -/
inductive NarrowsResult {ε α : Type} (P : α → Prop) : Except ε α → Except ε α → Prop where
  | error (fault : ε) (other : Except ε α) : NarrowsResult P (.error fault) other
  | ok {value : α} (h : P value) : NarrowsResult P (.ok value) (.ok value)

section

variable {α β : Type} {P : α → Prop} {Q : β → Prop}

theorem NarrowsResult.mono {ε : Type} {P' : α → Prop} {x y : Except ε α} (h : NarrowsResult P x y)
    (hP : ∀ value, P value → P' value) : NarrowsResult P' x y := by
  cases h with
  | error fault _ => exact .error fault _
  | ok hvalue => exact .ok (hP _ hvalue)

theorem NarrowsResult.map {ε : Type} {x y : Except ε α} (h : NarrowsResult P x y) {f : α → β}
    (hf : ∀ value, P value → Q (f value)) : NarrowsResult Q (x.map f) (y.map f) := by
  cases h with
  | error fault _ => exact .error fault _
  | ok hvalue => exact .ok (hf _ hvalue)

end

namespace Reader

variable {α β : Type} {P : α → Prop} {Q : β → Prop}

/-- `p` halts or replies as `q` does, and what it reads satisfies `P`. -/
def Narrows (P : α → Prop) (p q : Reader α) : Prop :=
  ∀ text, (p text).Narrows P (q text)

namespace Narrows

variable {p q : Reader α}

theorem halting (complaint : Complaint) (q : Reader α) : Narrows P (Reader.halting complaint) q :=
  fun _ => .halt _ _

theorem of_done (h : ∀ text value rest, p text = .done value rest → P value) :
    Narrows P p p := by
  intro text
  cases hp : p text with
  | done value rest => exact .done rest (h text value rest hp)
  | miss fault => exact .miss fault
  | halt fault => exact .halt fault _

theorem holds (h : Narrows P p q) {text rest : List Char} {value : α}
    (hdone : p text = .done value rest) : P value := by
  have hreply := h text
  rw [hdone] at hreply
  generalize q text = reply at hreply
  cases hreply with
  | done _ hvalue => exact hvalue

theorem refl (p : Reader α) : Narrows (fun _ => True) p p :=
  of_done fun _ _ _ _ => trivial

theorem mono {P' : α → Prop} (h : Narrows P p q) (hP : ∀ value, P value → P' value) :
    Narrows P' p q := by
  intro text
  have hreply := h text
  generalize p text = r, q text = s at hreply ⊢
  cases hreply with
  | halt fault other => exact .halt fault _
  | miss fault => exact .miss fault
  | done rest hvalue => exact .done rest (hP _ hvalue)

theorem pure {value : α} (h : P value) :
    Narrows P (Pure.pure value : Reader α) (Pure.pure value) :=
  fun text => .done text h

theorem bind (h : Narrows P p q) {f g : α → Reader β}
    (hf : ∀ value, P value → Narrows Q (f value) (g value)) : Narrows Q (p >>= f) (q >>= g) := by
  intro text
  change (Reader.bind p f text).Narrows Q (Reader.bind q g text)
  simp only [Reader.bind]
  have hreply := h text
  generalize p text = r, q text = s at hreply ⊢
  cases hreply with
  | halt fault other => exact .halt fault _
  | miss fault => exact .miss fault
  | done rest hvalue => exact hf _ hvalue rest

theorem after {f g : α → Reader β} (hf : ∀ value, Narrows Q (f value) (g value)) :
    Narrows Q (p >>= f) (p >>= g) :=
  (refl p).bind fun value _ => hf value

theorem map (h : Narrows P p q) {f : α → β} (hf : ∀ value, P value → Q (f value)) :
    Narrows Q (f <$> p) (f <$> q) :=
  h.bind fun value hvalue => pure (hf value hvalue)

/-- A reader that refuses to go on under a condition, beside one whose condition is no weaker. -/
theorem refusing {c c' : Prop} [Decidable c] [Decidable c'] (hc : c' → c) {refusal r : Reader α}
    (hrefusal : ∀ text, ∃ fault, refusal text = .halt fault) (h : ¬ c → Narrows P p q) :
    Narrows P (if c then refusal else p) (if c' then r else q) := by
  by_cases hrefused : c
  · intro text
    obtain ⟨fault, hhalt⟩ := hrefusal text
    rw [if_pos hrefused, hhalt]
    exact .halt fault _
  · rw [if_neg hrefused, if_neg (mt hc hrefused)]
    exact h hrefused

theorem orElse (h : Narrows P p q) {p' q' : Reader α} (h' : Narrows P p' q') :
    Narrows P (p <|> p') (q <|> q') := by
  intro text
  change (Reader.orElse p (fun _ => p') text).Narrows P (Reader.orElse q (fun _ => q') text)
  simp only [Reader.orElse]
  have hreply := h text
  generalize p text = r, q text = s at hreply ⊢
  cases hreply with
  | halt fault other => exact .halt fault _
  | miss fault => exact h' text
  | done rest hvalue => exact .done rest hvalue

theorem cut (h : Narrows P p q) : Narrows P (Reader.cut p) (Reader.cut q) := by
  intro text
  simp only [Reader.cut]
  have hreply := h text
  generalize p text = r, q text = s at hreply ⊢
  cases hreply with
  | halt fault other => exact .halt fault _
  | miss fault => exact .halt fault _
  | done rest hvalue => exact .done rest hvalue

theorem under (complaint : Complaint) (h : Narrows P p q) :
    Narrows P (Reader.under complaint p) (Reader.under complaint q) := by
  intro text
  simp only [Reader.under]
  have hreply := h text
  generalize p text = r, q text = s at hreply ⊢
  cases hreply with
  | halt fault other => exact .halt _ _
  | miss fault => exact .miss _
  | done rest hvalue => exact .done rest hvalue

theorem option (h : Narrows P p q) :
    Narrows (fun found => ∀ value ∈ found, P value) (Reader.option p) (Reader.option q) := by
  intro text
  simp only [Reader.option]
  have hreply := h text
  generalize p text = r, q text = s at hreply ⊢
  cases hreply with
  | halt fault other => exact .halt fault _
  | miss fault => exact .done text (by simp)
  | done rest hvalue => exact .done rest fun _ heq => Option.some.inj heq ▸ hvalue

theorem manyWithin (h : Narrows P p q) (budget : List Char) :
    Narrows (fun values => ∀ value ∈ values, P value) (Reader.manyWithin p budget)
      (Reader.manyWithin q budget) := by
  induction budget with
  | nil => exact fun text => .done text nofun
  | cons _ budget ih =>
      intro text
      simp only [Reader.manyWithin]
      have hreply := h text
      generalize p text = r, q text = s at hreply ⊢
      cases hreply with
      | halt fault other => exact .halt fault _
      | miss fault => exact .done text nofun
      | done rest hvalue =>
          simp only
          have hothers := ih rest
          generalize Reader.manyWithin p budget rest = r,
            Reader.manyWithin q budget rest = s at hothers ⊢
          cases hothers with
          | halt fault other => exact .halt fault _
          | miss fault => exact .miss fault
          | done rest hvalues => exact .done rest (List.forall_mem_cons.mpr ⟨hvalue, hvalues⟩)

theorem many (h : Narrows P p q) :
    Narrows (fun values => ∀ value ∈ values, P value) (Reader.many p) (Reader.many q) :=
  fun text => h.manyWithin text text

theorem separated (separator : Reader β) (h : Narrows P p q) :
    Narrows (fun values => ∀ value ∈ values, P value) (Reader.separated separator p)
      (Reader.separated separator q) := by
  refine orElse (h.bind fun first hfirst => ?_) (pure nofun)
  refine (many (after fun _ => h)).bind fun others hothers => ?_
  exact pure (List.forall_mem_cons.mpr ⟨hfirst, hothers⟩)

theorem wholly (h : Narrows P p q) : Narrows P (Reader.wholly p) (Reader.wholly q) := by
  intro text
  simp only [Reader.wholly]
  have hreply := h text
  generalize p text = r, q text = s at hreply ⊢
  cases hreply with
  | halt fault other => exact .halt fault _
  | miss fault => exact .miss fault
  | done rest hvalue =>
      cases rest with
      | nil => exact .done [] hvalue
      | cons c rest => exact .miss _

theorem spanned (h : Narrows P p q) :
    Narrows (fun found => P found.2) (Reader.spanned p) (Reader.spanned q) := by
  intro text
  simp only [Reader.spanned]
  have hreply := h text
  generalize p text = r, q text = s at hreply ⊢
  cases hreply with
  | halt fault other => exact .halt fault _
  | miss fault => exact .miss fault
  | done rest hvalue => exact .done rest hvalue

theorem lexeme (h : Narrows P p q) : Narrows P (Reader.lexeme p) (Reader.lexeme q) := by
  refine after fun _ => h.bind fun value hvalue => ?_
  exact after fun _ => pure hvalue

end Narrows

end Reader

end Stencil.Template
