import Stencil.Proofs.Comments
import Stencil.Proofs.Positions

namespace Stencil.Template

open Reader

namespace Directive

/-- The text begins with the directive: with its word behind a number sign, where no longer word
stands, or with its word in braces. -/
inductive Opens (d : Directive) : List Char → Prop where
  | plain {behind : List Char} (h : Stops isIdentifierChar behind) :
      Opens d ('#' :: (d.word.toList ++ behind))
  | braced (behind : List Char) :
      Opens d ('#' :: '\x7b' :: (d.word.toList ++ '\x7d' :: behind))

theorem eq_word_of_ofWord? {word : String} {d : Directive} (h : ofWord? word = some d) :
    word = d.word := by
  unfold ofWord? at h
  split at h <;> cases h <;> rfl

theorem isIdentifier_word (d : Directive) : isIdentifier d.word.toList = true := by
  cases d <;> decide

end Directive

theorem identifierAs_directive (d : Directive) {behind : List Char}
    (h : Stops isIdentifierChar behind) :
    identifierAs Directive.ofWord? (d.word.toList ++ behind) = .done d behind := by
  refine identifierAs_append d.isIdentifier_word h ?_
  rw [String.ofList_toList, d.ofWord?_word]

theorem of_identifierAs_directive {d : Directive} {text rest : List Char}
    (h : identifierAs Directive.ofWord? text = .done d rest) :
    text = d.word.toList ++ rest ∧ Stops isIdentifierChar rest := by
  obtain ⟨name, rfl, hrest, hname⟩ := of_identifierAs_eq_done h
  refine ⟨?_, hrest⟩
  rw [← Directive.eq_word_of_ofWord? hname, String.toList_ofList]

theorem exists_directiveWord_iff {d : Directive} {text : List Char} :
    (∃ rest, directiveWord text = .done d rest) ↔ d.Opens text := by
  constructor
  · rintro ⟨rest, h⟩
    obtain ⟨_, behind, hsign, hbehind⟩ := of_bind_eq_done h
    cases of_char_eq_done hsign
    obtain hbraced | hplain := of_orElse_eq_done hbehind
    · obtain ⟨_, opened, hopen, hinside⟩ := of_bind_eq_done hbraced
      cases of_char_eq_done hopen
      obtain ⟨found, closed, hword, hbehindWord⟩ := of_bind_eq_done hinside
      obtain ⟨_, final, hclose, hpure⟩ := of_bind_eq_done hbehindWord
      cases hpure
      cases of_char_eq_done hclose
      rw [(of_identifierAs_directive hword).1]
      exact .braced _
    · obtain ⟨rfl, hrest⟩ := of_identifierAs_directive hplain
      exact .plain hrest
  · rintro (@⟨behind, hbehind⟩ | behind)
    · have hbrace : Misses (char '\x7b') (d.word.toList ++ behind) :=
        misses_char (by cases d <;> simp [Directive.word])
      refine ⟨behind, (bind_of_done (char_self '#' _)).trans ?_⟩
      rw [(hbrace.bind _).orElse_eq]
      exact identifierAs_directive d hbehind
    · refine ⟨behind, (bind_of_done (char_self '#' _)).trans (orElse_of_done ?_)⟩
      rw [bind_of_done (char_self _ _), bind_of_done (identifierAs_directive d (.cons rfl _)),
        bind_of_done (char_self _ _)]
      rfl

theorem atBlockEnd_iff {text : List Char} :
    atBlockEnd text = true ↔ ∃ d, Directive.continuesBlock d = true ∧ d.Opens text := by
  simp only [← exists_directiveWord_iff, atBlockEnd]
  cases directiveWord text <;> simp

theorem misses_directive_of_ne {d other : Directive} {text rest : List Char}
    (h : directiveWord text = .done d rest) (hne : d ≠ other) :
    Misses (directive other) text := by
  have hmissing : directive other text = missing .expectedWord text := by
    simp only [directive, h, if_neg hne]
  exact misses_of_eq hmissing

theorem Directive.Opens.misses_comment {d : Directive} {text : List Char} (h : d.Opens text) :
    Misses comment text := by
  cases h with
  | plain _ => cases d <;> exact ⟨_, rfl⟩
  | braced _ => exact ⟨_, rfl⟩

/-- Nodes take every character that there is, unless they come to the end of a block. -/
theorem misses_node_iff (inner : Inner) {text : List Char} :
    Misses (node inner) text ↔
      text = [] ∨ ∃ d, Directive.continuesBlock d = true ∧ d.Opens text := by
  constructor
  · intro hmiss
    cases text with
    | nil => exact .inl rfl
    | cons c others =>
        obtain ⟨htext, hstray⟩ := hmiss.of_orElse.2.of_orElse.2.of_orElse.2.of_orElse.2.of_orElse
        obtain ⟨fault, htext⟩ := htext
        obtain ⟨fault', hstray⟩ := hstray
        cases hc : isMarker c with
        | false =>
            rw [bind_of_done (plainText_cons hc others)] at htext
            cases htext
        | true =>
            cases hend : atBlockEnd (c :: others) with
            | false =>
                rw [bind_of_done (strayMarker_of_not_atBlockEnd hc hend)] at hstray
                cases hstray
            | true => exact .inr (atBlockEnd_iff.mp hend)
  · rintro (rfl | ⟨d, hblock, hopens⟩)
    · exact misses_node_nil inner
    · obtain ⟨rest, hword⟩ := exists_directiveWord_iff.mpr hopens
      have hother (other : Directive) (hother : other.continuesBlock = false) :
          Misses (directive other) text := by
        refine misses_directive_of_ne hword ?_
        rintro rfl
        exact Bool.false_ne_true (hother.symm.trans hblock)
      obtain ⟨others, rfl⟩ : ∃ others, text = '#' :: others := by
        cases hopens <;> exact ⟨_, rfl⟩
      have hstray : Misses strayMarker ('#' :: others) := by
        have hend := atBlockEnd_iff.mpr ⟨d, hblock, hopens⟩
        exact misses_of_eq (if_neg (by simp [hend]))
      rw [Misses, node_of_misses inner hopens.misses_comment (hother .set rfl) (hother .if rfl)]
      exact ((misses_reference inner (by simp)).bind _).orElse
        (((misses_plainText rfl others).bind _).orElse (hstray.bind _))

theorem nodeSequence_cases (levels : Nat) (text : List Char) :
    Halts (nodeSequence (Inner.within levels)) text ∨
      ∃ found rest, Rounds (node (Inner.within levels)) text found rest ∧
        nodeSequence (Inner.within levels) text =
          .done (mergeTexts (found.filterMap id)) rest := by
  have hinner := Inner.stays_within levels
  obtain ⟨found, rest, hmany, -⟩ | ⟨_, fault, -, -, hmany⟩ :=
    manyWithin_cases (fun _ _ _ => hinner.node.suffix) text text
  · have hrounds := (advances_node hinner).rounds_of_many (misses_node_nil _) hmany
    exact .inr ⟨found, rest, hrounds, bind_of_done hmany⟩
  · exact .inl (Halts.bind ⟨fault, hmany⟩ _)

/-- A template that is read without a fault but not to its end is refused for the directive that its
reading stops at. -/
theorem parse_of_stop {source : String} {nodes : List Node} {rest : List Char} {d : Directive}
    (hread : readNodes source.toList = .done nodes rest) (hopens : d.Opens rest)
    (label : String) :
    strayComplaint rest = .strayDirective d ∧
      ∃ front found, source.toList = front ++ rest ∧ found.toList <+: rest ∧
        Template.parse label source = .error
          (.invalid (Complaint.strayDirective d).text found (.after front)) := by
  obtain ⟨behind, hword⟩ := exists_directiveWord_iff.mpr hopens
  have hstray : strayComplaint rest = .strayDirective d := by
    simp only [strayComplaint, hword]
  have hne : rest ≠ [] := by
    rintro rfl
    cases hopens
  obtain ⟨front, hsource⟩ := (Inner.stays_within maxNesting).nodeSequence.suffix hread
  let fault : Fault :=
    { complaint := .strayDirective d, location := { piece := rest, behind := 0 } }
  have hstart : source.toList.take (fault.location.start source.toList) = front := by
    simp [fault, Location.start, ← hsource]
  have hpiece : fault.location.piece ≠ [] := hne
  obtain ⟨found, hfound, herror⟩ := toError_of_ne_nil source.toList hpiece
  rw [hstart] at herror
  refine ⟨hstray, front, found, hsource.symm, ?_, ?_⟩
  · exact hfound ▸ (List.take_prefix _ _).trans (List.takeWhile_prefix _)
  · refine parse_eq_error_iff.mpr ⟨fault, ?_, herror.symm⟩
    cases rest with
    | nil => exact absurd rfl hne
    | cons c others => simp only [failure?, hread, hstray, fault]

/-- Every node takes a character, and there is no end to the reading of nodes but a fault for good,
the end of the text, or a complete directive that continues or ends a block. A template that is read
without a fault but not to its end is refused for that directive, at its place. -/
theorem nodes_end_at_block_ends :
    (∀ (levels : Nat), Advances (node (Inner.within levels)) ∧
      ∀ (text : List Char), Halts (nodeSequence (Inner.within levels)) text ∨
        ∃ found rest, Rounds (node (Inner.within levels)) text found rest ∧
          nodeSequence (Inner.within levels) text =
            .done (mergeTexts (found.filterMap id)) rest ∧
          (rest = [] ∨ ∃ d, Directive.continuesBlock d = true ∧ d.Opens rest)) ∧
      ∀ (label source : String),
        (∃ fault, readNodes source.toList = .halt fault ∧
          Template.parse label source = .error (fault.toError source.toList)) ∨
        (∃ nodes, readNodes source.toList = .done nodes [] ∧
          Template.parse label source = .ok { label, nodes }) ∨
        ∃ nodes front rest d found, source.toList = front ++ rest ∧
          readNodes source.toList = .done nodes rest ∧
          Directive.continuesBlock d = true ∧ d.Opens rest ∧
          strayComplaint rest = .strayDirective d ∧ found.toList <+: rest ∧
          Template.parse label source = .error
            (.invalid s!"#{d.word} without an open #if" found (.after front)) := by
  constructor
  · refine fun levels => ⟨advances_node (Inner.stays_within levels), fun text => ?_⟩
    refine (nodeSequence_cases levels text).imp_right ?_
    rintro ⟨found, rest, hrounds, hread⟩
    exact ⟨found, rest, hrounds, hread, (misses_node_iff _).mp hrounds.misses⟩
  · intro label source
    obtain ⟨fault, hread⟩ | ⟨found, rest, hrounds, hread⟩ :=
      nodeSequence_cases maxNesting source.toList
    · refine .inl ⟨fault, hread, parse_eq_error_iff.mpr ⟨fault, ?_, rfl⟩⟩
      simp only [failure?, readNodes, Inner.top, hread]
    · rcases (misses_node_iff _).mp hrounds.misses with rfl | ⟨d, hblock, hopens⟩
      · exact .inr (.inl ⟨_, hread, parse_of_readNodes hread label⟩)
      · obtain ⟨hstray, front, quoted, hsource, hquoted, hparse⟩ :=
          parse_of_stop hread hopens label
        exact .inr (.inr ⟨_, front, rest, d, quoted, hsource, hread, hblock, hopens, hstray,
          hquoted, hparse⟩)

example : readNodes "hello #{end} rest".toList =
    .done [.text "hello "] "#{end} rest".toList := rfl

end Stencil.Template
