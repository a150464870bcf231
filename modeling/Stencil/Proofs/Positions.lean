import Stencil.Proofs.Staying

/-! Where the errors of templates and expressions point to. An error with a position names one place
of the source and repeats what stands there; an error that names the end is about the end, gaps in
map literals apart. -/

namespace Stencil.Template

open Reader

namespace Position

def Precedes (p q : Position) : Prop :=
  p.line < q.line ∨ p.line = q.line ∧ p.column < q.column

theorem Precedes.trans {p q r : Position} (hpq : p.Precedes q) (hqr : q.Precedes r) :
    p.Precedes r := by
  simp only [Precedes] at *
  omega

theorem Precedes.ne {p q : Position} (h : p.Precedes q) : p ≠ q := by
  rintro rfl
  simp only [Precedes] at h
  omega

theorem precedes_concat (front : List Char) (c : Char) :
    (after front).Precedes (after (front ++ [c])) := by
  simp only [Precedes, after, List.count_append, List.reverse_append, List.reverse_cons,
    List.reverse_nil, List.nil_append, List.singleton_append]
  by_cases hc : c = '\n'
  · left
    simp [hc]
  · right
    simp [hc]

theorem precedes_append (front : List Char) {more : List Char} (h : more ≠ []) :
    (after front).Precedes (after (front ++ more)) := by
  induction more generalizing front with
  | nil => exact absurd rfl h
  | cons c rest ih =>
      have hnext := precedes_concat front c
      by_cases hrest : rest = []
      · rwa [hrest]
      · rw [List.append_cons]
        exact hnext.trans (ih (front ++ [c]) hrest)

theorem precedes_of_lt {text : List Char} {i j : Nat} (hij : i < j) (hj : j ≤ text.length) :
    (after (text.take i)).Precedes (after (text.take j)) := by
  obtain ⟨more, hmore⟩ := List.take_prefix_take_left (l := text) (Nat.le_of_lt hij)
  have hne : more ≠ [] := by
    rintro rfl
    have hlength := congrArg List.length hmore
    simp only [List.append_nil, List.length_take] at hlength
    omega
  rw [← hmore]
  exact precedes_append _ hne

theorem after_take_inj {text : List Char} {i j : Nat} (hi : i ≤ text.length)
    (hj : j ≤ text.length) (h : after (text.take i) = after (text.take j)) : i = j := by
  rcases Nat.lt_trichotomy i j with hlt | heq | hgt
  · exact absurd h (precedes_of_lt hlt hj).ne
  · exact heq
  · exact absurd h.symm (precedes_of_lt hgt hi).ne

end Position

def Location.start (source : List Char) (l : Location) : Nat :=
  source.length - (l.piece.length + l.behind)

theorem Location.LiesIn.length_eq {l : Location} {text : List Char} (h : l.LiesIn text) :
    l.start text + l.piece.length + l.behind = text.length := by
  obtain ⟨front, back, rfl, hback⟩ := h
  simp only [start, hback, List.length_append]
  omega

theorem Location.LiesIn.prefix_drop {l : Location} {text : List Char} (h : l.LiesIn text) :
    l.piece <+: text.drop (l.start text) := by
  have hlength := h.length_eq
  obtain ⟨front, back, rfl, hback⟩ := h
  have hstart : l.start (front ++ (l.piece ++ back)) = front.length := by
    simp only [List.length_append] at hlength
    omega
  rw [hstart, List.drop_left]
  exact List.prefix_append _ _

section

variable {source : String} {fault : Fault}

/-- Why and where the reading of a template stops, if it does not come to the end. -/
def failure? (source : String) : Option Fault :=
  match readNodes source.toList with
  | .done _ [] => none
  | .done _ rest =>
      some { complaint := strayComplaint rest, location := { piece := rest, behind := 0 } }
  | .miss fault | .halt fault => some fault

theorem parse_eq_error_iff {label : String} {error : ParseError} :
    Template.parse label source = .error error ↔
      ∃ fault, failure? source = some fault ∧ error = fault.toError source.toList := by
  simp only [Template.parse, failure?]
  cases readNodes source.toList with
  | done nodes rest => cases rest <;> simp [Fault.toError, eq_comm]
  | miss fault => simp [eq_comm]
  | halt fault => simp [eq_comm]

theorem liesIn_of_failure? (h : failure? source = some fault) : fault.LiesIn source.toList := by
  have hreply := (Inner.stays_within maxNesting).nodeSequence source.toList
  unfold failure? readNodes Inner.top at h
  generalize nodeSequence (Inner.within maxNesting) source.toList = reply at h hreply
  cases hreply with
  | @done nodes rest hrest =>
      cases rest with
      | nil => cases h
      | cons c rest =>
          cases h
          exact Fault.liesIn_of_suffix _ hrest
  | miss hfault | halt hfault =>
      cases h
      exact hfault

theorem exists_fault_of_parseExpression {error : ParseError}
    (h : parseExpression source = .error error) :
    ∃ fault : Fault, fault.LiesIn source.toList ∧ error = fault.toError source.toList := by
  have hreply := (Inner.stays_within maxNesting).expression.lexeme.wholly source.toList
  unfold parseExpression Inner.top at h
  dsimp only at h
  generalize wholly (lexeme (Inner.within maxNesting).expression) source.toList = reply at h hreply
  cases hreply with
  | done => cases h
  | miss hfault | halt hfault =>
      cases h
      exact ⟨_, hfault, rfl⟩

theorem toError_of_ne_nil (text : List Char) (h : fault.location.piece ≠ []) :
    ∃ found,
      found.toList =
        (fault.location.piece.takeWhile fun c => c != '\n' && c != '\r').take 16 ∧
      fault.toError text = .invalid fault.complaint.text found
        (.after (text.take (fault.location.start text))) := by
  refine ⟨_, String.toList_ofList .., ?_⟩
  simp only [Fault.toError, ParseError.ofLocation, List.isEmpty_iff, h, if_false,
    ParseError.quotedLength, Location.start]

theorem toError_of_nil (text : List Char) (h : fault.location.piece = []) :
    fault.toError text = .unexpectedEnd fault.complaint.text := by
  simp only [Fault.toError, ParseError.ofLocation, h, List.isEmpty_nil, if_true]

end

/-- The error repeats what stands at the only place of the text that has its position: at most 16
characters of one line. -/
theorem exists_place_of_invalid {fault : Fault} {text : List Char} (hlies : fault.LiesIn text)
    {reason found : String} {position : Position}
    (h : fault.toError text = .invalid reason found position) :
    (∃ i < text.length,
      (∀ j ≤ text.length, Position.after (text.take j) = position ↔ j = i) ∧
        found.toList <+: text.drop i) ∧
      found.toList.length ≤ 16 ∧ '\n' ∉ found.toList ∧ '\r' ∉ found.toList := by
  have hne : fault.location.piece ≠ [] := by
    intro hempty
    rw [toError_of_nil text hempty] at h
    cases h
  obtain ⟨quoted, hquoted, herror⟩ := toError_of_ne_nil text hne
  rw [herror] at h
  cases h
  have hlength := hlies.place.length_eq
  have hpiece := List.length_pos_iff.mpr hne
  have hline : found.toList <+: fault.location.piece :=
    hquoted ▸ (List.take_prefix _ _).trans (List.takeWhile_prefix _)
  have hshort : found.toList.length ≤ 16 := hquoted ▸ List.length_take_le _ _
  have hends (c : Char) (hc : c ∈ found.toList) : c ≠ '\n' ∧ c ≠ '\r' := by
    rw [hquoted] at hc
    simpa using List.mem_takeWhile_imp (List.mem_of_mem_take hc)
  refine ⟨⟨fault.location.start text, by omega, fun j hj => ⟨fun heq => ?_, ?_⟩,
    hline.trans hlies.place.prefix_drop⟩, hshort, fun hc => (hends _ hc).1 rfl,
    fun hc => (hends _ hc).2 rfl⟩
  · exact Position.after_take_inj hj (by omega) heq
  · rintro rfl
    rfl

/-- An error with a position that a template or an expression is refused with belongs to exactly one
place of the source, which goes on with the text found, at most 16 characters of one line. Positions
grow with the places. -/
theorem errors_point_into_source (label source : String) :
    let text := source.toList
    (∀ reason found position,
      Template.parse label source = .error (.invalid reason found position) ∨
        parseExpression source = .error (.invalid reason found position) →
      (∃ i < text.length,
        (∀ j ≤ text.length, Position.after (text.take j) = position ↔ j = i) ∧
          found.toList <+: text.drop i) ∧
        found.toList.length ≤ 16 ∧ '\n' ∉ found.toList ∧ '\r' ∉ found.toList) ∧
      ∀ i j, i < j → j ≤ text.length →
        (Position.after (text.take i)).Precedes (Position.after (text.take j)) := by
  intro text
  refine ⟨?_, fun i j hij hj => Position.precedes_of_lt hij hj⟩
  intro reason found position hrefused
  rcases hrefused with hparse | hparse
  · obtain ⟨fault, hfailure, herror⟩ := parse_eq_error_iff.mp hparse
    exact exists_place_of_invalid (liesIn_of_failure? hfailure) herror.symm
  · obtain ⟨fault, hlies, herror⟩ := exists_fault_of_parseExpression hparse
    exact exists_place_of_invalid hlies herror.symm

def unequalSource : String :=
  "é\n#set($m = %\x7ba = \x7bb 1\x7d\x7d) $x"

theorem errors_point_into_source_unequal :
    let text := unequalSource.toList
    Template.parse "t" unequalSource =
        .error (.invalid "expected '=' after map key" "1" ⟨2, 20⟩) ∧
      (∃ i < text.length,
        (∀ j ≤ text.length, Position.after (text.take j) = ⟨2, 20⟩ ↔ j = i) ∧
          "1".toList <+: text.drop i) ∧
      (Position.after (text.take 1)).Precedes (Position.after (text.take 2)) := by
  intro text
  have hrefused : Template.parse "t" unequalSource =
      .error (.invalid "expected '=' after map key" "1" ⟨2, 20⟩) := rfl
  obtain ⟨hplaces, hgrow⟩ := errors_point_into_source "t" unequalSource
  exact ⟨hrefused, (hplaces _ _ _ (.inl hrefused)).1, hgrow 1 2 (by decide) (by decide)⟩

/-- A refused template is said to end unexpectedly if its reading stops at the end of the source, or
at a gap in a map literal. Wherever else it stops, the error has the position of that place. -/
theorem unexpectedEnd_at_end_or_gap {label source : String} {error : ParseError}
    (h : Template.parse label source = .error error) :
    let text := source.toList
    ∃ fault, failure? source = some fault ∧
      ((∃ reason, error = .unexpectedEnd reason) ↔
        fault.location.start text = text.length ∨ fault.IsGapIn text) ∧
      (fault.location.start text < text.length → ¬ fault.IsGapIn text →
        ∃ found, error = .invalid fault.complaint.text found
          (.after (text.take (fault.location.start text)))) := by
  intro text
  obtain ⟨fault, hfailure, rfl⟩ := parse_eq_error_iff.mp h
  have hlies := liesIn_of_failure? hfailure
  have hlength : fault.location.start text + fault.location.piece.length +
      fault.location.behind = text.length := hlies.place.length_eq
  refine ⟨fault, hfailure, ?_⟩
  by_cases hempty : fault.location.piece = []
  · have hstop : fault.location.start text = text.length ∨ fault.IsGapIn text := by
      refine (hlies.empty hempty).imp_left fun hbehind => ?_
      simpa [hempty, hbehind] using hlength
    refine ⟨⟨fun _ => hstop, fun _ => ⟨_, toError_of_nil _ hempty⟩⟩, fun hbefore hgap => ?_⟩
    exact absurd (hstop.resolve_right hgap) (Nat.ne_of_lt hbefore)
  · have hpiece := List.length_pos_iff.mpr hempty
    obtain ⟨found, -, herror⟩ := toError_of_ne_nil text hempty
    refine ⟨⟨?_, ?_⟩, fun _ _ => ⟨found, herror⟩⟩
    · rintro ⟨reason, hend⟩
      exact nomatch herror.symm.trans hend
    · rintro (hstart | hgap)
      · omega
      · exact absurd hgap.piece hempty

def openBlockSource : String :=
  "#if(true) open"

theorem unexpectedEnd_at_end_or_gap_openBlock :
    Template.parse "t" openBlockSource =
        .error (.unexpectedEnd "expected #end to close #if") ∧
      ∃ fault, failure? openBlockSource = some fault ∧
        (fault.location.start openBlockSource.toList = openBlockSource.toList.length ∨
          fault.IsGapIn openBlockSource.toList) := by
  have hrefused : Template.parse "t" openBlockSource =
      .error (.unexpectedEnd "expected #end to close #if") := rfl
  obtain ⟨fault, hfailure, hend, -⟩ := unexpectedEnd_at_end_or_gap hrefused
  exact ⟨hrefused, fault, hfailure, hend.mp ⟨_, rfl⟩⟩

def loneKeySource : String :=
  "#set($x = %\x7ba\x7d) more"

/-- A key alone in a map literal is said to be the end of a template that goes on. -/
theorem unexpectedEnd_before_end :
    Template.parse "t" loneKeySource = .error (.unexpectedEnd "expected '=' after map key") ∧
      ∃ fault, failure? loneKeySource = some fault ∧
        fault.location.start loneKeySource.toList = 13 ∧ loneKeySource.toList.length = 20 :=
  ⟨rfl, _, rfl, rfl, rfl⟩

end Stencil.Template
