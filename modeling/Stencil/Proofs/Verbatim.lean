import Stencil.Engine.Basic
import Stencil.Proofs.Acceptance
import Stencil.Proofs.Fitting
import Stencil.Proofs.SideBySide

/-! Text and references in a template stand for all of its source: a reader of nodes takes exactly
the characters that the node repeats, and where every node is text or a reference to nothing, the
output is the source. -/

namespace Stencil

open Template

namespace Template

open Reader

namespace Node

def verbatim : Node → String
  | .text content => content
  | .reference r => r.literal
  | .set .. | .conditional .. => ""

def isVerbatim : Node → Bool
  | .text _ => true
  | .reference r => !r.quiet
  | .set .. | .conditional .. => false

end Node

theorem append_of_reference {inner : Inner} (hinner : inner.Stays) {text rest : List Char}
    {r : Reference} (h : reference inner text = .done r rest) :
    text = r.literal.toList ++ rest := by
  obtain ⟨⟨read, quiet, root, path⟩, middle, hread, hpure⟩ := of_bind_eq_done h
  cases hpure
  have happend := append_of_spanned ((Stays.char '$').bind fun _ => hinner.markedBody) hread
  simpa [Reference.literal] using happend

theorem append_of_plainText {text rest : List Char} {content : String}
    (h : plainText text = .done content rest) : text = content.toList ++ rest := by
  unfold plainText at h
  split at h
  · cases h
  · rename_i hspan
    cases h
    rw [List.span_eq_takeWhile_dropWhile] at hspan
    cases hspan
    rw [String.toList_ofList, List.takeWhile_append_dropWhile]

theorem append_of_strayMarker {text rest : List Char} {content : String}
    (h : strayMarker text = .done content rest) : text = content.toList ++ rest := by
  unfold strayMarker at h
  split at h
  · split at h
    · cases h
      simp
    · cases h
  · cases h

theorem setNode_not_verbatim (inner : Inner) :
    Reader.Narrows (fun n => n.isVerbatim = false) (setNode inner) (setNode inner) := by
  refine .after fun _ => .after fun _ => fun opened => ?_
  refine ((Reader.Narrows.refl _).bind fun target _ => ?_) opened
  refine .refusing id (fun _ => ⟨_, rfl⟩) fun _ => ?_
  exact .after fun value => .after fun _ => .pure rfl

theorem conditional_not_verbatim (inner : Inner) :
    Reader.Narrows (fun n => n.isVerbatim = false) (conditional inner) (conditional inner) := by
  refine .after fun first => .after fun others => .after fun otherwise => ?_
  exact .after fun _ => .after fun _ => .pure rfl

theorem opens_of_comment {text rest : List Char} (h : comment text = .done () rest) :
    ['#', '#'] <+: text ∨ ['#', '*'] <+: text := by
  unfold comment at h
  split at h
  · exact .inl (List.prefix_append ['#', '#'] _)
  · exact .inr (List.prefix_append ['#', '*'] _)
  · cases h

/-- Neither a line comment nor a block comment opens anywhere in the text. -/
structure Uncommented (text : List Char) : Prop where
  line : ¬ ['#', '#'] <:+: text
  block : ¬ ['#', '*'] <:+: text

theorem Uncommented.suffix {text rest : List Char} (h : Uncommented text) (hrest : rest <:+ text) :
    Uncommented rest where
  line hopens := h.line (hopens.trans hrest.isInfix)
  block hopens := h.block (hopens.trans hrest.isInfix)

section

variable {inner : Inner} (hinner : inner.Stays) {text rest : List Char}
  (hblock : Reader.Narrows (fun n => n.isVerbatim = false) inner.block inner.block)
include hinner hblock

/-- A reader of nodes takes what the node repeats, if it is not a comment and no directive. -/
theorem append_of_node (htext : Uncommented text) {found : Option Node}
    (h : node inner text = .done found rest) (hfound : ∀ n ∈ found, n.isVerbatim = true) :
    ∃ n, found = some n ∧ text = n.verbatim.toList ++ rest := by
  obtain h | h := of_orElse_eq_done h
  · obtain ⟨_, middle, hcomment, -⟩ := of_bind_eq_done h
    obtain hopens | hopens := opens_of_comment hcomment
    · exact absurd hopens.isInfix htext.line
    · exact absurd hopens.isInfix htext.block
  obtain h | h := of_orElse_eq_done h
  · obtain ⟨n, middle, hset, hpure⟩ := of_bind_eq_done h
    cases hpure
    have hnot := (setNode_not_verbatim inner).holds hset
    exact absurd ((hfound n rfl).symm.trans hnot) nofun
  obtain h | h := of_orElse_eq_done h
  · obtain ⟨n, middle, hif, hpure⟩ := of_bind_eq_done h
    cases hpure
    obtain ⟨_, opened, -, hbody⟩ := of_bind_eq_done hif
    exact absurd ((hfound n rfl).symm.trans (hblock.holds hbody)) nofun
  obtain h | h := of_orElse_eq_done h
  · obtain ⟨r, middle, href, hpure⟩ := of_bind_eq_done h
    cases hpure
    exact ⟨_, rfl, append_of_reference hinner href⟩
  obtain h | h := of_orElse_eq_done h
  · obtain ⟨content, middle, hplain, hpure⟩ := of_bind_eq_done h
    cases hpure
    exact ⟨_, rfl, append_of_plainText hplain⟩
  · obtain ⟨content, middle, hstray, hpure⟩ := of_bind_eq_done h
    cases hpure
    exact ⟨_, rfl, append_of_strayMarker hstray⟩

theorem append_of_nodes (htext : Uncommented text) {budget : List Char}
    {found : List (Option Node)} (h : manyWithin (node inner) budget text = .done found rest)
    (hfound : ∀ n, some n ∈ found → n.isVerbatim = true) :
    text = (String.join ((found.filterMap id).map Node.verbatim)).toList ++ rest := by
  induction budget generalizing text found with
  | nil =>
      cases h
      rfl
  | cons _ budget ih =>
      obtain ⟨rfl, rfl⟩ | ⟨first, middle, others, rfl, hfirst, hothers⟩ := of_manyWithin_eq_done h
      · rfl
      · obtain ⟨n, rfl, happend⟩ := append_of_node hinner hblock htext hfirst fun n hn =>
          hfound n (List.mem_cons.mpr (.inl (Option.mem_def.mp hn).symm))
        have hmiddle := htext.suffix (hinner.node.suffix hfirst)
        have hrest := ih hmiddle hothers fun n hn => hfound n (List.mem_cons_of_mem _ hn)
        rw [happend, hrest]
        simp

end

theorem join_mergeTexts (nodes : List Node) :
    String.join ((mergeTexts nodes).map Node.verbatim) = String.join (nodes.map Node.verbatim) := by
  fun_induction mergeTexts nodes with
  | case1 => rfl
  | case2 content rest more others heq ih =>
      rw [heq] at ih
      simp only [List.map_cons, String.join_cons, Node.verbatim, String.append_assoc] at ih ⊢
      rw [ih]
  | case3 content rest hother ih => simp only [List.map_cons, String.join_cons, ih]
  | case4 other rest hother ih => simp only [List.map_cons, String.join_cons, ih]

theorem isVerbatim_of_mergeTexts {nodes : List Node}
    (h : ∀ n ∈ mergeTexts nodes, n.isVerbatim = true) : ∀ n ∈ nodes, n.isVerbatim = true := by
  fun_induction mergeTexts nodes with
  | case1 => exact List.forall_mem_nil _
  | case2 content rest more others heq ih =>
      rw [heq] at ih
      exact List.forall_mem_cons.mpr ⟨rfl, ih (List.forall_mem_cons.mpr
        ⟨rfl, (List.forall_mem_cons.mp h).2⟩)⟩
  | case3 content rest hother ih =>
      exact List.forall_mem_cons.mpr ⟨rfl, ih (List.forall_mem_cons.mp h).2⟩
  | case4 other rest hother ih =>
      obtain ⟨hother, hrest⟩ := List.forall_mem_cons.mp h
      exact List.forall_mem_cons.mpr ⟨hother, ih hrest⟩

theorem readNodes_of_parse {label source : String} {t : Template}
    (h : Template.parse label source = .ok t) : readNodes source.toList = .done t.nodes [] := by
  unfold Template.parse at h
  dsimp only at h
  generalize readNodes source.toList = reply at h ⊢
  cases reply with
  | done nodes rest =>
      cases rest with
      | nil =>
          cases h
          rfl
      | cons c rest => cases h
  | miss fault | halt fault => cases h

theorem join_of_parse {label source : String} {t : Template}
    (htext : Uncommented source.toList) (hparse : Template.parse label source = .ok t)
    (hnodes : ∀ n ∈ t.nodes, n.isVerbatim = true) :
    String.join (t.nodes.map Node.verbatim) = source := by
  have hblock : Reader.Narrows (fun n => n.isVerbatim = false) Inner.top.block Inner.top.block :=
    conditional_not_verbatim _
  obtain ⟨found, middle, hfound, hpure⟩ := of_bind_eq_done (readNodes_of_parse hparse)
  obtain ⟨hmerged, rfl⟩ : mergeTexts (found.filterMap id) = t.nodes ∧ middle = [] :=
    Reply.done.inj hpure
  rw [← hmerged] at hnodes ⊢
  have hverbatim := isVerbatim_of_mergeTexts hnodes
  have happend := append_of_nodes (Inner.stays_within maxNesting) hblock htext hfound
    fun n hn => hverbatim n (List.mem_filterMap.mpr ⟨some n, hn, rfl⟩)
  rw [List.append_nil] at happend
  rw [join_mergeTexts]
  exact (String.toList_injective happend).symm

theorem Reference.eval_empty (setting : Setting) (r : Reference) (cache : ResolutionCache) :
    r.eval setting { context := .empty, cache } = (.ok .null, { context := .empty, cache }) := by
  cases r
  rfl

theorem writeReference_null {setting : Setting} (hstrict : setting.strict = false) {r : Reference}
    (hquiet : r.quiet = false) (p : Progress) :
    Rendering.writeReference setting .unlimited r .null p =
      (.ok (), { p with written := r.literal :: p.written }) := by
  simp only [Rendering.writeReference, Value.isNull, hquiet, hstrict, Bool.not_true,
    Bool.false_eq_true, if_false]
  rfl

theorem renderNodes_verbatim {setting : Setting} (hstrict : setting.strict = false)
    {nodes : List Node} (hnodes : ∀ n ∈ nodes, n.isVerbatim = true) (cache : ResolutionCache)
    (written : List String) :
    let progress (written : List String) : Progress :=
      { scope := { context := .empty, cache }, written, operandError := none }
    renderNodes setting .unlimited nodes (progress written) =
      (.ok (), progress ((nodes.map Node.verbatim).reverse ++ written)) := by
  induction nodes generalizing written with
  | nil => rfl
  | cons n rest ih =>
      obtain ⟨hn, hrest⟩ := List.forall_mem_cons.mp hnodes
      have hothers := ih hrest (n.verbatim :: written)
      rw [List.map_cons, List.reverse_cons, List.append_assoc]
      cases n with
      | text content => exact hothers
      | reference r =>
          have hquiet : r.quiet = false := by simpa [Node.isVerbatim] using hn
          simp only [renderNodes, Rendering.bind_apply, Rendering.absorbing,
            Reference.eval_empty, writeReference_null hstrict hquiet]
          exact hothers
      | set | conditional => cases hn

theorem renderWith_verbatim {setting : Setting} (hstrict : setting.strict = false)
    {nodes : List Node} (hnodes : ∀ n ∈ nodes, n.isVerbatim = true) (cache : ResolutionCache) :
    renderWith setting .unlimited nodes { context := .empty, cache } = {
      result := .ok ()
      pieces := nodes.map Node.verbatim
      context := .empty
      cache := cache } := by
  have hrender := renderNodes_verbatim hstrict hnodes cache []
  rw [List.append_nil] at hrender
  simp only [renderWith, Progress.start, hrender, List.reverse_reverse]

end Template

/-- A source without number signs and opening brackets is a template. Every template of text and of
references that show themselves repeats its source, if no comment opens in the source, and so does
its rendering without variables. -/
theorem source_kept_verbatim (label source : String) :
    ('#' ∉ source.toList → '(' ∉ source.toList → ∃ t, Template.parse label source = .ok t) ∧
    ∀ t, ¬ ['#', '#'] <:+: source.toList → ¬ ['#', '*'] <:+: source.toList →
      Template.parse label source = .ok t → (∀ n ∈ t.nodes, n.isVerbatim = true) →
      String.join (t.nodes.map Node.verbatim) = source ∧
      ∀ engine : Engine, engine.config.strict = false →
        let run := engine.render .unlimited t .empty
        run.result = .ok () ∧ run.output = source ∧ run.context = .empty := by
  refine ⟨fun hmark hopen => exists_parse hmark hopen label, ?_⟩
  intro t hline hblock hparse hnodes
  have hjoin := join_of_parse ⟨hline, hblock⟩ hparse hnodes
  refine ⟨hjoin, fun engine hstrict => ?_⟩
  have hsetting : engine.setting.strict = false := hstrict
  simp only [Engine.render, renderWith_verbatim hsetting hnodes, Outcome.text]
  exact ⟨rfl, hjoin, trivial⟩

namespace Template

def markedSource : String :=
  "$1 $\x7bc\x7d $\x7bd $e.g. $"

def numberedSource : String :=
  "a # b $\x7bc\x7d $\x7bd $e.f(true, 'x').g. #endless $"

def numberedTemplate (label : String) : Template where
  label := label
  nodes :=
    [.text "a # b ",
      .reference (.mk false "c" [] "$\x7bc\x7d"),
      .text " $\x7bd ",
      .reference (.mk false "e"
        [.method "f" [.literal (.boolean true), .literal (.text "x")],
          .property "g"]
        "$e.f(true, 'x').g"),
      .text ". #endless $"]

end Template

theorem source_kept_verbatim_scattered :
    '#' ∉ markedSource.toList ∧ '(' ∉ markedSource.toList ∧
    (∃ t, Template.parse "marked" markedSource = .ok t) ∧
    ¬ ['#', '#'] <:+: numberedSource.toList ∧ ¬ ['#', '*'] <:+: numberedSource.toList ∧
    Template.parse "numbered" numberedSource = .ok (numberedTemplate "numbered") ∧
    (∀ n ∈ (numberedTemplate "numbered").nodes, n.isVerbatim = true) ∧
    Engine.usual.config.strict = false ∧
    (Engine.usual.render .unlimited (numberedTemplate "numbered") .empty).output =
      numberedSource := by
  have hmark : '#' ∉ markedSource.toList := by decide
  have hopen : '(' ∉ markedSource.toList := by decide
  have hline : ¬ ['#', '#'] <:+: numberedSource.toList := by decide +kernel
  have hblock : ¬ ['#', '*'] <:+: numberedSource.toList := by decide +kernel
  have hparse : Template.parse "numbered" numberedSource = .ok (numberedTemplate "numbered") := rfl
  have hnodes : ∀ n ∈ (numberedTemplate "numbered").nodes, n.isVerbatim = true := by
    simp [numberedTemplate, Node.isVerbatim, Reference.quiet]
  obtain ⟨hmarked, -⟩ := source_kept_verbatim "marked" markedSource
  obtain ⟨-, hnumbered⟩ := source_kept_verbatim "numbered" numberedSource
  obtain ⟨-, hrender⟩ := hnumbered _ hline hblock hparse hnodes
  obtain ⟨-, houtput, -⟩ := hrender .usual rfl
  exact ⟨hmark, hopen, hmarked hmark hopen, hline, hblock, hparse, hnodes, rfl, houtput⟩

end Stencil
