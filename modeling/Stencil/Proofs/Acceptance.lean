import Stencil.Proofs.Nodes
import Stencil.Proofs.Staying

namespace Stencil.Template

open Reader

namespace Reader

variable {α β : Type}

/-- A reader that does not halt where no bracket opens. -/
def Lenient (p : Reader α) : Prop :=
  ∀ text, '(' ∉ text → ¬ Halts p text

namespace Lenient

variable {p q : Reader α}

theorem pure (value : α) : Lenient (Pure.pure value : Reader α) :=
  fun _ _ ⟨_, h⟩ => nomatch h

theorem bind (hp : Lenient p) (hstays : Stays p) {f : α → Reader β}
    (hf : ∀ value, Lenient (f value)) : Lenient (p >>= f) := by
  rintro text htext ⟨fault, h⟩
  change Reader.bind p f text = _ at h
  simp only [Reader.bind] at h
  split at h
  · rename_i value rest hvalue
    exact hf value rest (fun hmem => htext ((hstays.suffix hvalue).mem hmem)) ⟨fault, h⟩
  · cases h
  · rename_i hhalt
    exact hp text htext ⟨_, hhalt⟩

theorem orElse (hp : Lenient p) (hq : Lenient q) : Lenient (p <|> q) := by
  rintro text htext ⟨fault, h⟩
  change Reader.orElse p (fun _ => q) text = _ at h
  simp only [Reader.orElse] at h
  split at h
  · exact hq text htext ⟨fault, h⟩
  · exact hp text htext ⟨fault, h⟩

theorem option (hp : Lenient p) : Lenient (Reader.option p) := by
  rintro text htext ⟨fault, h⟩
  simp only [Reader.option] at h
  split at h
  · cases h
  · cases h
  · rename_i hhalt
    exact hp text htext ⟨_, hhalt⟩

theorem many (hp : Lenient p) (hstays : Stays p) : Lenient (Reader.many p) := by
  have hwithin (budget : List Char) : Lenient (Reader.manyWithin p budget) := by
    induction budget with
    | nil => exact fun _ _ ⟨_, h⟩ => nomatch h
    | cons c budget ih =>
        rintro text htext ⟨fault, h⟩
        simp only [Reader.manyWithin] at h
        split at h
        · rename_i value rest hvalue
          refine ih rest (fun hmem => htext ((hstays.suffix hvalue).mem hmem)) ⟨fault, ?_⟩
          split at h
          · cases h
          · exact h
        · cases h
        · rename_i hhalt
          exact hp text htext ⟨_, hhalt⟩
  exact fun text => hwithin text text

theorem spanned (hp : Lenient p) : Lenient (Reader.spanned p) := by
  rintro text htext ⟨fault, h⟩
  simp only [Reader.spanned] at h
  split at h
  · cases h
  · cases h
  · rename_i hhalt
    exact hp text htext ⟨_, hhalt⟩

theorem char (c : Char) : Lenient (Reader.char c) := by
  rintro text - ⟨fault, h⟩
  unfold Reader.char at h
  split at h
  · split at h <;> cases h
  · cases h

end Lenient

end Reader

theorem lenient_identifier : Lenient identifier := by
  rintro text - ⟨fault, h⟩
  unfold identifier at h
  split at h
  · split at h <;> cases h
  · cases h

section

variable {inner : Inner} (hinner : inner.Stays)
include hinner

theorem lenient_accessor : Lenient (accessor inner) := by
  have harguments : Lenient (arguments inner) := by
    rintro text htext ⟨fault, h⟩
    have hfront : text.head? ≠ some '(' := fun hmem => htext (List.mem_of_mem_head? hmem)
    obtain ⟨_, hmiss⟩ : Misses (arguments inner) text := (misses_char hfront).bind _
    cases hmiss.symm.trans h
  refine (Lenient.char _).bind (.char _) fun _ => lenient_identifier.bind stays_identifier
    fun name => ?_
  refine harguments.option.bind hinner.arguments.option fun items => ?_
  cases items with
  | none => exact .pure _
  | some items => exact .pure _

theorem lenient_referenceBody : Lenient (referenceBody inner) := by
  refine lenient_identifier.bind stays_identifier fun root => ?_
  exact ((lenient_accessor hinner).many hinner.accessor).bind hinner.accessor.many fun _ => .pure _

theorem lenient_bracedBody : Lenient (bracedBody inner) := by
  refine (Lenient.char _).bind (.char _) fun _ => ?_
  refine (lenient_referenceBody hinner).bind hinner.referenceBody fun body => ?_
  exact (Lenient.char _).bind (.char _) fun _ => .pure body

theorem lenient_reference : Lenient (reference inner) := by
  have hbody : Lenient (markedBody inner) := by
    refine (Lenient.char _).option.bind (Stays.char _).option fun mark => ?_
    refine ((lenient_bracedBody hinner).orElse (lenient_referenceBody hinner)).bind ?_
      fun body => .pure _
    exact hinner.bracedBody.orElse hinner.referenceBody
  have hmarked := (Lenient.char '$').bind (.char _) fun _ => hbody
  have hstays := (Stays.char '$').bind fun _ => hinner.markedBody
  exact hmarked.spanned.bind hstays.spanned fun _ => .pure _

end

theorem plainText_cons {c : Char} (hc : isMarker c = false) (others : List Char) :
    plainText (c :: others) = .done (String.ofList (c :: others.takeWhile (!isMarker ·)))
      (others.dropWhile (!isMarker ·)) := by
  have hspan : (c :: others).span (!isMarker ·) =
      (c :: others.takeWhile (!isMarker ·), others.dropWhile (!isMarker ·)) := by
    simp [List.span_eq_takeWhile_dropWhile, hc]
  rw [plainText, hspan]

theorem misses_plainText {c : Char} (hc : isMarker c = true) (others : List Char) :
    Misses plainText (c :: others) := by
  have hstops : Stops (!isMarker ·) (c :: others) := .cons (by simp [hc]) others
  have hmissing : plainText (c :: others) = missing .expectedIdentifier (c :: others) := by
    rw [plainText, hstops.span_eq]
  exact misses_of_eq hmissing

theorem strayMarker_cons {c : Char} (hc : isMarker c = true) (hne : c ≠ '#')
    (others : List Char) : strayMarker (c :: others) = .done c.toString others := by
  have hword : Misses directiveWord (c :: others) := (misses_char (by simpa using hne)).bind _
  exact strayMarker_of_not_atBlockEnd hc (atBlockEnd_of_misses hword)

theorem advances_reference {inner : Inner} (hinner : inner.Stays) : Advances (reference inner) :=
  ((advances_char '$').bind fun _ => hinner.markedBody).spanned.bind fun _ => .pure _

/-- Any character begins a node, unless it begins a comment, a directive or arguments. -/
theorem exists_node {inner : Inner} (hinner : inner.Stays) {text : List Char}
    (hmark : '#' ∉ text) (hopen : '(' ∉ text) (hne : text ≠ []) :
    ∃ found rest, node inner text = .done found rest ∧ rest.length < text.length := by
  have hhead : text.head? ≠ some '#' := fun hmem => hmark (List.mem_of_mem_head? hmem)
  rw [node_of_head? inner hhead, textualNode]
  cases href : reference inner text with
  | halt fault => exact absurd ⟨fault, href⟩ (lenient_reference hinner text hopen)
  | done r rest =>
      refine ⟨some (.reference r), rest, orElse_of_done ?_, advances_reference hinner href⟩
      rw [bind_of_done href]
      rfl
  | miss fault =>
      rw [Misses.orElse_eq (Misses.bind ⟨fault, href⟩ _)]
      obtain ⟨c, others, rfl⟩ := List.exists_cons_of_ne_nil hne
      cases hc : isMarker c with
      | false =>
          refine ⟨_, _, orElse_of_done (bind_of_done (plainText_cons hc others)), ?_⟩
          exact Nat.lt_succ_of_le (List.length_dropWhile_le ..)
      | true =>
          have hne : c ≠ '#' := fun heq => hmark (heq ▸ List.mem_cons_self ..)
          rw [((misses_plainText hc others).bind _).orElse_eq,
            bind_of_done (strayMarker_cons hc hne others)]
          exact ⟨_, others, rfl, Nat.lt_succ_self _⟩

theorem exists_rounds {inner : Inner} (hinner : inner.Stays) {text : List Char}
    (hmark : '#' ∉ text) (hopen : '(' ∉ text) :
    ∃ found, Rounds (node inner) text found [] := by
  induction hlength : text.length using Nat.strong_induction_on generalizing text with
  | _ length ih =>
      subst hlength
      by_cases hne : text = []
      · cases hne
        exact ⟨[], .stop (misses_node_nil inner)⟩
      · obtain ⟨found, rest, hread, hlt⟩ := exists_node hinner hmark hopen hne
        have hrest := hinner.node.suffix hread
        obtain ⟨others, hothers⟩ := ih rest.length hlt (fun hmem => hmark (hrest.mem hmem))
          (fun hmem => hopen (hrest.mem hmem)) rfl
        exact ⟨found :: others, .round hread hlt hothers⟩

theorem parse_of_readNodes {source : String} {nodes : List Node}
    (h : readNodes source.toList = .done nodes []) (label : String) :
    Template.parse label source = .ok { label, nodes } := by
  unfold Template.parse
  dsimp only
  rw [h]

theorem exists_parse {source : String} (hmark : '#' ∉ source.toList)
    (hopen : '(' ∉ source.toList) (label : String) :
    ∃ t, Template.parse label source = .ok t := by
  obtain ⟨found, hfound⟩ := exists_rounds (Inner.stays_within maxNesting) hmark hopen
  exact ⟨_, parse_of_readNodes (bind_of_done hfound.many_eq) label⟩

end Stencil.Template
