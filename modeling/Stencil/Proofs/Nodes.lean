import Stencil.Proofs.Lexemes
import Stencil.Template.Nodes

namespace Stencil.Template

open Reader

def plainNodes : List Char → List Node
  | [] => []
  | c :: rest => [.text (String.ofList (c :: rest))]

section

variable (inner : Inner) {text : List Char}

theorem misses_comment (h : text.head? ≠ some '#') : Misses comment text := by
  have hmissing : comment text = missing .expectedWord text := by
    rw [comment]
    · intro _ heq
      cases heq
      exact h rfl
    · intro _ heq
      cases heq
      exact h rfl
  exact misses_of_eq hmissing

theorem Reader.Misses.directive (h : Misses directiveWord text) (d : Directive) :
    Misses (Template.directive d) text := by
  obtain ⟨fault, h⟩ := h
  have hmissing : Template.directive d text = missing .expectedWord text := by
    simp only [Template.directive, h]
  exact misses_of_eq hmissing

theorem misses_directive (d : Directive) (h : text.head? ≠ some '#') :
    Misses (directive d) text :=
  Misses.directive ((misses_char h).bind _) d

theorem misses_spanned {α : Type} {p : Reader α} (h : Misses p text) :
    Misses (spanned p) text := by
  obtain ⟨fault, h⟩ := h
  exact ⟨fault, by simp only [spanned, h]⟩

theorem misses_reference (h : text.head? ≠ some '$') : Misses (reference inner) text :=
  (misses_spanned ((misses_char h).bind _)).bind _

theorem misses_some {α : Type} {p : Reader α} (h : Misses p text) :
    Misses (some <$> p) text :=
  h.bind _

def textualNode : Reader (Option Node) :=
  (do return some (.reference (← reference inner)))
    <|> (do return some (.text (← plainText)))
    <|> (do return some (.text (← strayMarker)))

theorem node_of_misses (hcomment : Misses comment text) (hset : Misses (directive .set) text)
    (hif : Misses (directive .if) text) : node inner text = textualNode inner text := by
  have hsetNode : Misses (setNode inner) text := hset.bind _
  have hifNode : Misses (ifNode inner) text := hif.bind _
  rw [node, (hcomment.bind _).orElse_eq, (misses_some hsetNode).orElse_eq,
    (misses_some hifNode).orElse_eq]
  rfl

theorem node_of_head? (h : text.head? ≠ some '#') : node inner text = textualNode inner text :=
  node_of_misses inner (misses_comment h) (misses_directive .set h) (misses_directive .if h)

theorem strayMarker_of_not_atBlockEnd {c : Char} (hc : isMarker c = true) {others : List Char}
    (h : atBlockEnd (c :: others) = false) :
    strayMarker (c :: others) = .done c.toString others := by
  simp [strayMarker, hc, h]

theorem atBlockEnd_of_misses (h : Misses directiveWord text) : atBlockEnd text = false := by
  obtain ⟨fault, h⟩ := h
  simp only [atBlockEnd, h]

theorem plainText_eq (hne : text ≠ []) (h : ∀ c ∈ text, isMarker c = false) :
    plainText text = .done (String.ofList text) [] := by
  have hall : ∀ c ∈ text, (!isMarker c) = true := by
    intro c hc
    rw [h c hc]
    rfl
  have hspan : text.span (!isMarker ·) = (text, []) := by
    have hspan := Stops.nil.span_append hall
    rwa [List.append_nil] at hspan
  cases text with
  | nil => exact absurd rfl hne
  | cons c rest => rw [plainText, hspan]

theorem node_plain (hne : text ≠ []) (h : ∀ c ∈ text, isMarker c = false) :
    node inner text = .done (some (.text (String.ofList text))) [] := by
  have hhead : ∀ c, isMarker c = true → text.head? ≠ some c := by
    intro c hc heq
    exact Bool.false_ne_true ((h c (List.mem_of_mem_head? heq)).symm.trans hc)
  rw [node_of_head? inner (hhead '#' rfl), textualNode,
    ((misses_reference inner (hhead '$' rfl)).bind _).orElse_eq]
  refine orElse_of_done ?_
  rw [bind_of_done (plainText_eq hne h)]
  rfl

theorem misses_node_nil : Misses (node inner) [] :=
  ⟨_, rfl⟩

theorem wholly_nodeSequence_plain (h : ∀ c ∈ text, isMarker c = false) :
    wholly (nodeSequence inner) text = .done (plainNodes text) [] := by
  refine wholly_of_done ?_
  have hstop : Rounds (node inner) [] [] [] := .stop (misses_node_nil inner)
  cases text with
  | nil =>
      rw [nodeSequence, bind_of_done hstop.many_eq]
      rfl
  | cons c rest =>
      have hrounds : Rounds (node inner) (c :: rest) _ [] :=
        .round (node_plain inner (List.cons_ne_nil c rest) h) (Nat.succ_pos _) hstop
      rw [nodeSequence, bind_of_done hrounds.many_eq]
      rfl

end

theorem mem_mergeTexts {node : Node} {nodes : List Node} (h : node ∈ mergeTexts nodes) :
    (∃ content, node = .text content) ∨ node ∈ nodes := by
  fun_induction mergeTexts nodes with
  | case1 => exact .inr h
  | case2 content rest more others heq ih =>
      rcases List.mem_cons.mp h with rfl | hmem
      · exact .inl ⟨_, rfl⟩
      · exact (ih (heq ▸ List.mem_cons_of_mem _ hmem)).imp_right (List.mem_cons_of_mem _)
  | case3 content rest hother ih =>
      rcases List.mem_cons.mp h with rfl | hmem
      · exact .inl ⟨_, rfl⟩
      · exact (ih hmem).imp_right (List.mem_cons_of_mem _)
  | case4 other rest hother ih =>
      rcases List.mem_cons.mp h with rfl | hmem
      · exact .inr (List.mem_cons_self ..)
      · exact (ih hmem).imp_right (List.mem_cons_of_mem _)

theorem length_mergeTexts_le (nodes : List Node) : (mergeTexts nodes).length ≤ nodes.length := by
  fun_induction mergeTexts nodes with
  | case1 => exact Nat.le_refl _
  | case2 content rest more others heq ih =>
      rw [heq] at ih
      exact Nat.le_succ_of_le ih
  | case3 content rest hother ih => exact Nat.succ_le_succ ih
  | case4 other rest hother ih => exact Nat.succ_le_succ ih

@[simp] theorem mergeTexts_mergeTexts (nodes : List Node) :
    mergeTexts (mergeTexts nodes) = mergeTexts nodes := by
  fun_induction mergeTexts nodes with
  | case1 => rfl
  | case2 content rest more others heq ih =>
      rw [heq] at ih
      simp only [mergeTexts] at ih ⊢
      split at ih
      · rename_i next behind hbehind
        obtain ⟨-, rfl⟩ := List.cons.inj ih
        have hlength := length_mergeTexts_le behind
        rw [hbehind] at hlength
        exact absurd hlength (Nat.not_succ_le_self _)
      · simp only [(List.cons.inj ih).2]
  | case3 content rest hother ih => simp only [mergeTexts, ih]
  | case4 other rest hother ih => simp only [mergeTexts, ih]

theorem mergeTexts_cons_mergeTexts (n : Node) (nodes : List Node) :
    mergeTexts (n :: mergeTexts nodes) = mergeTexts (n :: nodes) := by
  cases n <;> simp only [mergeTexts, mergeTexts_mergeTexts]

end Stencil.Template
