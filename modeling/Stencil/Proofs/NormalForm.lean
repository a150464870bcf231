import Mathlib.Data.List.Chain
import Mathlib.Data.Option.Basic
import Stencil.Proofs.Comments
import Stencil.Proofs.Footprint
import Stencil.Proofs.Rereading

/-! The normal form of the trees that templates are read as: what the readers never build, although
the syntax has room for it. -/

namespace Stencil

/-- A number that a numeral stands for: 64 bits only where 32 bits do not hold it. -/
inductive Number.IsLiteral : Number → Prop where
  | int32 (v : Int) (h : IntegerKind.int32.Holds v) : IsLiteral (.integer .int32 v h)
  | int64 (v : Int) (h : IntegerKind.int64.Holds v) (hwide : ¬ IntegerKind.int32.Holds v) :
      IsLiteral (.integer .int64 v h)
  | double (x : Double) : IsLiteral (.double x)

theorem IntegerKind.holds_of_number? {k : IntegerKind} {v : Int} {n : Number}
    (h : k.number? v = some n) : ∃ hholds, n = .integer k v hholds := by
  unfold IntegerKind.number? at h
  split at h
  · rename_i hholds
    exact ⟨hholds, (Option.some.inj h).symm⟩
  · cases h

theorem IntegerKind.not_holds_of_number? {k : IntegerKind} {v : Int} (h : k.number? v = none) :
    ¬ k.Holds v := by
  intro hholds
  rw [IntegerKind.number?, dif_pos hholds] at h
  cases h

namespace Template

open Reader

def Node.isText : Node → Bool
  | .text _ => true
  | .reference _ | .set .. | .conditional .. => false

theorem Node.isText_eq_false {node : Node} (h : ∀ content, node ≠ .text content) :
    node.isText = false := by
  cases node with
  | text content => exact absurd rfl (h content)
  | reference | set | conditional => rfl

def Merged (nodes : List Node) : Prop :=
  nodes.IsChain fun node next => node.isText = false ∨ next.isText = false

namespace TreePart

/-- What a part is to be like itself, whatever lies below it. -/
def IsNormal : TreePart → Prop
  | .node (.text content) => content ≠ ""
  | .node (.reference _) => True
  | .node (.set target _) => isIdentifier target.toList = true
  | .node (.conditional branches otherwise) => branches ≠ [] ∧ ∀ body ∈ otherwise, Merged body
  | .branch (.mk _ body) => Merged body
  | .reference r =>
      isIdentifier r.root.toList = true ∧ readReference r.literal.toList = .done r []
  | .accessor (.property name) | .accessor (.method name _) => isIdentifier name.toList = true
  | .expr (.literal (.number n)) | .value (.number n) => n.IsLiteral
  | .expr (.interpolated nodes) => Merged nodes ∧ ∃ node ∈ nodes, node.isText = false
  | .expr _ => True
  | .entry (.mk key _) => isIdentifier key.toList = true
  | .value (.text nodes) => Merged nodes
  | .value _ => True

/-- A part that contains only parts in their normal form. -/
def Normal (part : TreePart) : Prop :=
  ∀ found, part.Contains found → found.IsNormal

theorem Normal.of_children {part : TreePart} (here : part.IsNormal)
    (below : ∀ counted child, Child part counted child → Normal child) : Normal part := by
  intro found hfound
  obtain rfl | ⟨child, ⟨counted, hchild⟩, hrest⟩ := Relation.ReflTransGen.cases_head hfound
  · exact here
  · exact below counted child hchild found hrest

theorem Normal.here {part : TreePart} (h : Normal part) : part.IsNormal :=
  h part .refl

theorem Normal.text {content : String} (h : content ≠ "") : Normal (.node (.text content)) :=
  .of_children (by exact h) nofun

theorem Normal.literal {value : Literal} (h : IsNormal (.expr (.literal value))) :
    Normal (.expr (.literal value)) :=
  .of_children h nofun

theorem Normal.valueBoolean (b : Bool) : Normal (.value (.boolean b)) :=
  .of_children trivial nofun

theorem Normal.valueNumber {n : Number} (h : n.IsLiteral) : Normal (.value (.number n)) :=
  .of_children (by exact h) nofun

theorem Normal.map {entries : List MapEntry} (h : ∀ entry ∈ entries, Normal (.entry entry)) :
    Normal (.expr (.map entries)) := by
  refine .of_children trivial fun _ _ hchild => ?_
  cases hchild with
  | mapEntry hentry => exact h _ hentry

end TreePart

open TreePart (Normal)

structure NormalNodes (nodes : List Node) : Prop where
  merged : Merged nodes
  each : ∀ node ∈ nodes, Normal (.node node)

theorem merged_mergeTexts (nodes : List Node) : Merged (mergeTexts nodes) := by
  fun_induction mergeTexts nodes with
  | case1 => exact .nil
  | case2 content rest more others heq ih =>
      rw [heq] at ih
      exact List.isChain_cons.mpr (List.isChain_cons.mp ih)
  | case3 content rest hother ih =>
      refine List.IsChain.cons ih fun next hnext => .inr (Node.isText_eq_false ?_)
      rintro more rfl
      obtain ⟨others, heq⟩ := List.head?_eq_some_iff.mp hnext
      exact hother more others heq
  | case4 other rest hother ih =>
      exact List.IsChain.cons ih fun _ _ => .inl (Node.isText_eq_false hother)

theorem normal_of_mem_mergeTexts {nodes : List Node} (h : ∀ node ∈ nodes, Normal (.node node)) :
    ∀ node ∈ mergeTexts nodes, Normal (.node node) := by
  fun_induction mergeTexts nodes with
  | case1 => exact h
  | case2 content rest more others heq ih =>
      obtain ⟨hcontent, hrest⟩ := List.forall_mem_cons.mp h
      rw [heq] at ih
      have hne : content ≠ "" := hcontent.here
      have hjoined : content ++ more ≠ "" := fun hempty =>
        hne (String.append_eq_empty_iff.mp hempty).1
      exact List.forall_mem_cons.mpr ⟨Normal.text hjoined, (List.forall_mem_cons.mp (ih hrest)).2⟩
  | case3 content rest hother ih | case4 other rest hother ih =>
      obtain ⟨hfirst, hrest⟩ := List.forall_mem_cons.mp h
      exact List.forall_mem_cons.mpr ⟨hfirst, ih hrest⟩

theorem isLiteral_of_numeral? {text : List Char} {n : Number} (h : numeral? text = some n) :
    n.IsLiteral := by
  have hdouble (h : (Numeral.decimal? text).map (fun d => Number.double d.toDouble) = some n) :
      n.IsLiteral := by
    obtain ⟨d, -, rfl⟩ := Option.map_eq_some_iff.mp h
    exact .double _
  simp only [numeral?] at h
  split at h
  · split at h
    · exact hdouble h
    · cases h
  split at h
  · obtain hinteger | ⟨-, h⟩ := (Option.orElse_eq_some _ _ _).mp h
    · obtain ⟨v, -, hv⟩ := Option.bind_eq_some_iff.mp hinteger
      obtain h32 | ⟨hnone, h64⟩ := (Option.orElse_eq_some _ _ _).mp hv
      · obtain ⟨hholds, rfl⟩ := IntegerKind.holds_of_number? h32
        exact .int32 v hholds
      · obtain ⟨hholds, rfl⟩ := IntegerKind.holds_of_number? h64
        exact .int64 v hholds (IntegerKind.not_holds_of_number? hnone)
    · exact hdouble h
  · cases h

theorem exists_not_isText {nodes : List Node} (h : plainTexts? nodes = none) :
    ∃ node ∈ nodes, node.isText = false := by
  fun_induction plainTexts? nodes with
  | case1 => cases h
  | case2 content rest ih =>
      obtain ⟨node, hnode, htext⟩ := ih (Option.map_eq_none_iff.mp h)
      exact ⟨node, List.mem_cons_of_mem _ hnode, htext⟩
  | case3 other rest hother =>
      exact ⟨other, List.mem_cons_self .., Node.isText_eq_false hother⟩

theorem normal_interpolation {nodes : List Node} (h : NormalNodes nodes) :
    Normal (.expr (interpolation nodes)) := by
  rw [interpolation]
  split
  · exact .literal trivial
  · rename_i hnone
    refine .of_children ⟨h.merged, exists_not_isText hnone⟩ fun _ _ hchild => ?_
    cases hchild with
    | interpolated hnode => exact h.each _ hnode

abbrev Reader.ReadsOnly {α : Type} (P : α → Prop) (p : Reader α) : Prop :=
  Reader.Narrows P p p

theorem readsOnly_identifier :
    ReadsOnly (fun name => isIdentifier name.toList = true) identifier := by
  refine .of_done fun text name rest h => ?_
  obtain ⟨chars, -, hchars, -, rfl⟩ := of_identifier_eq_done h
  rwa [String.toList_ofList]

theorem readsOnly_of_advances {p : Reader String} (hadvances : Advances p)
    (happend : ∀ {text rest content}, p text = .done content rest → text = content.toList ++ rest) :
    ReadsOnly (· ≠ "") p := by
  refine .of_done fun text content rest h hempty => ?_
  have hlength := hadvances h
  rw [happend h, hempty, String.toList_empty, List.nil_append] at hlength
  exact Nat.lt_irrefl _ hlength

theorem readsOnly_plainText : ReadsOnly (· ≠ "") plainText :=
  readsOnly_of_advances advances_plainText append_of_plainText

theorem readsOnly_strayMarker : ReadsOnly (· ≠ "") strayMarker :=
  readsOnly_of_advances advances_strayMarker append_of_strayMarker

theorem readsOnly_numberLiteral : ReadsOnly (fun e => Normal (.expr e)) numberLiteral := by
  refine .of_done fun text e rest h => ?_
  simp only [numberLiteral] at h
  split at h
  · split at h
    · rename_i hnumeral
      cases h
      exact .literal (isLiteral_of_numeral? hnumeral)
    · cases h
  · cases h
  · cases h

/-- The readers of `inner` read only normal parts, and its references can be read again. -/
structure Inner.ReadsNormal (inner : Inner) : Prop where
  expression : ReadsOnly (fun e => Normal (.expr e)) inner.expression
  operand : ReadsOnly (fun e => Normal (.expr e)) inner.operand
  block : ReadsOnly (fun node => Normal (.node node)) inner.block
  braced : ∀ text entries, inner.braced text = .ok entries →
    ∀ entry ∈ entries, Normal (.entry entry)
  rereads : ReadsOnly (fun r => readReference r.literal.toList = .done r []) (reference inner)

namespace Inner.ReadsNormal

variable {inner : Inner} (h : inner.ReadsNormal)
include h

theorem arguments :
    ReadsOnly (fun items => ∀ e ∈ items, Normal (.expr e)) (arguments inner) := by
  refine .after fun _ => .cut (.under _ ?_)
  refine (Narrows.separated _ h.expression.lexeme).bind fun items hitems => ?_
  exact .after fun _ => .after fun _ => .pure hitems

theorem accessor : ReadsOnly (fun a => Normal (.accessor a)) (accessor inner) := by
  refine .after fun _ => readsOnly_identifier.bind fun name hname => ?_
  refine h.arguments.option.bind fun found hfound => ?_
  cases found with
  | none => exact .pure (.of_children (by exact hname) nofun)
  | some items =>
      refine .pure (.of_children (by exact hname) fun _ _ hchild => ?_)
      cases hchild with
      | argument _ he => exact hfound items rfl _ he

theorem referenceBody :
    ReadsOnly (fun body => isIdentifier body.1.toList = true ∧ ∀ a ∈ body.2, Normal (.accessor a))
      (referenceBody inner) := by
  refine readsOnly_identifier.bind fun root hroot => h.accessor.many.bind fun path hpath => ?_
  exact .pure ⟨hroot, hpath⟩

theorem markedBody :
    ReadsOnly
      (fun body => isIdentifier body.2.1.toList = true ∧ ∀ a ∈ body.2.2, Normal (.accessor a))
      (markedBody inner) := by
  have hbraced : ReadsOnly _ (bracedBody inner) :=
    .after fun _ => h.referenceBody.bind fun body hbody => .after fun _ => .pure hbody
  refine .after fun mark => ?_
  exact (hbraced.orElse h.referenceBody).bind fun body hbody => .pure hbody

theorem reference : ReadsOnly (fun r => Normal (.reference r)) (reference inner) := by
  have hparts : ReadsOnly
      (fun r => isIdentifier r.root.toList = true ∧ ∀ a ∈ r.path, Normal (.accessor a))
      (Template.reference inner) := by
    refine (Narrows.spanned (.after fun _ => h.markedBody)).bind fun found hfound => ?_
    exact .pure hfound
  refine .of_done fun text r rest hread => ?_
  obtain ⟨hroot, hpath⟩ := hparts.holds hread
  refine .of_children ⟨hroot, h.rereads.holds hread⟩ fun _ _ hchild => ?_
  cases hchild with
  | accessor _ _ _ ha => exact hpath _ ha

theorem setNode : ReadsOnly (fun node => Normal (.node node)) (setNode inner) := by
  refine .after fun _ => .after fun _ opened => ?_
  refine (h.reference.lexeme.under .expectedTarget).cut.bind (fun target htarget => ?_) opened
  refine .refusing id (fun _ => ⟨_, rfl⟩) fun _ => ?_
  have hvalue : ReadsOnly (fun value => Normal (.expr value)) (do
      char '='
      let value ← inner.expression
      layout
      char ')'
      return value) := by
    refine .after fun _ => h.expression.bind fun value hvalue => ?_
    exact .after fun _ => .after fun _ => .pure hvalue
  refine (hvalue.under .malformedSet).cut.bind fun value hvalue => .after fun _ => .pure ?_
  refine .of_children (by exact htarget.here.1) fun _ _ hchild => ?_
  cases hchild
  exact hvalue

theorem node : ReadsOnly (fun found => ∀ node ∈ found, Normal (.node node)) (node inner) := by
  have hsome {node : Node} (hnode : Normal (.node node)) :
      ∀ found ∈ some node, Normal (.node found) :=
    fun _ heq => Option.some.inj heq ▸ hnode
  have hreference {r : Reference} (hr : Normal (.reference r)) : Normal (.node (.reference r)) := by
    refine .of_children trivial fun _ _ hchild => ?_
    cases hchild
    exact hr
  refine .orElse (.after fun _ => .pure nofun) ?_
  refine .orElse (h.setNode.map fun _ hnode => hsome hnode) ?_
  refine .orElse (Narrows.map (.after fun _ => h.block) fun _ hnode => hsome hnode) ?_
  refine .orElse (h.reference.bind fun _ hr => .pure (hsome (hreference hr))) ?_
  refine .orElse (readsOnly_plainText.bind fun _ hne => .pure (hsome (.text hne))) ?_
  exact readsOnly_strayMarker.bind fun _ hne => .pure (hsome (.text hne))

theorem nodeSequence : ReadsOnly NormalNodes (nodeSequence inner) := by
  refine h.node.many.bind fun found hfound => .pure ?_
  refine ⟨merged_mergeTexts _, normal_of_mem_mergeTexts fun node hnode => ?_⟩
  obtain ⟨_, hfrom, rfl⟩ := List.mem_filterMap.mp hnode
  exact hfound _ hfrom node rfl

theorem branch : ReadsOnly (fun b => Normal (.branch b)) (branch inner) := by
  have hcondition : ReadsOnly (fun e => Normal (.expr e)) (condition inner) := by
    refine .under _ (.after fun _ => .after fun _ => ?_)
    refine h.expression.lexeme.bind fun test htest => ?_
    exact .after fun _ => .after fun _ => .pure htest
  refine hcondition.bind fun test htest => h.nodeSequence.bind fun body hbody => .pure ?_
  refine .of_children (by exact hbody.merged) fun _ _ hchild => ?_
  cases hchild with
  | condition => exact htest
  | body _ hnode => exact hbody.each _ hnode

theorem conditional : ReadsOnly (fun node => Normal (.node node)) (conditional inner) := by
  refine h.branch.cut.bind fun first hfirst => ?_
  refine (Narrows.after fun _ => h.branch.cut).many.bind fun others hothers => ?_
  refine (Narrows.after fun _ => .after fun _ => h.nodeSequence).option.bind
    fun otherwise hotherwise => ?_
  refine .after fun _ => .after fun _ => .pure ?_
  have hhere : TreePart.IsNormal (.node (.conditional (first :: others) otherwise)) :=
    ⟨List.cons_ne_nil _ _, fun body hbody => (hotherwise body hbody).merged⟩
  refine .of_children hhere fun _ _ hchild => ?_
  cases hchild with
  | @block _ b _ hb =>
      have hbranches : ∀ b ∈ first :: others, Normal (.branch b) :=
        List.forall_mem_cons.mpr ⟨hfirst, hothers⟩
      exact hbranches b hb
  | otherwise _ hnode => exact (hotherwise _ rfl).each _ hnode

theorem mapValue {text : List Char} {value : MapValue} (hread : mapValue inner text = .ok value) :
    Normal (.value value) := by
  simp only [Template.mapValue] at hread
  split at hread
  iterate 2
    · split at hread
      · rename_i hnodes
        cases hread
        have hnormal := h.nodeSequence.wholly.holds hnodes
        refine .of_children (by exact hnormal.merged) fun _ _ hchild => ?_
        cases hchild with
        | textNode hnode => exact hnormal.each _ hnode
      · cases hread
  · cases hentries : inner.braced _ with
    | ok entries =>
        rw [hentries] at hread
        cases hread
        refine .of_children trivial fun _ _ hchild => ?_
        cases hchild with
        | nestedEntry hentry => exact h.braced _ _ hentries _ hentry
    | error fault =>
        rw [hentries] at hread
        cases hread
  · split at hread
    · rename_i hreference
      cases hread
      refine .of_children trivial fun _ _ hchild => ?_
      cases hchild
      exact h.reference.wholly.holds hreference
    · cases hread
  split at hread
  · cases hread
    exact .valueBoolean _
  split at hread
  · cases hread
    exact .valueBoolean _
  split at hread
  · rename_i hnumeral
    cases hread
    exact .valueNumber (isLiteral_of_numeral? hnumeral)
  · cases hread

theorem mapEntry : ReadsOnly (fun entry => Normal (.entry entry)) (mapEntry inner) := by
  refine .of_done fun text entry rest hread => ?_
  simp only [Template.mapEntry] at hread
  split at hread
  · cases hread
  split at hread
  · cases hread
  rename_i key after _
  split at hread
  · cases hread
  rename_i hkey
  split at hread
  · cases hread
  split at hread
  · cases hread
  split at hread
  · cases hread
  split at hread
  · rename_i hvalue
    cases hread
    have hidentifier : isIdentifier (String.ofList key).toList = true := by
      rw [String.toList_ofList]
      simpa using hkey
    refine .of_children hidentifier fun _ _ hchild => ?_
    cases hchild
    exact h.mapValue hvalue
  · cases hread

theorem mapEntries {body : List Char} {entries : List MapEntry}
    (hread : mapEntries inner body = .ok entries) : ∀ entry ∈ entries, Normal (.entry entry) := by
  simp only [Template.mapEntries] at hread
  split at hread
  · rename_i hmany
    cases hread
    exact h.mapEntry.many.holds hmany
  · cases hread
  · cases hread

theorem mapLiteral :
    ReadsOnly (fun entries => ∀ entry ∈ entries, Normal (.entry entry)) (mapLiteral inner) := by
  refine .of_done fun text entries rest hread => ?_
  simp only [Template.mapLiteral] at hread
  split at hread
  · split at hread
    · cases hread
    · split at hread
      · rename_i hentries
        cases hread
        exact h.mapEntries hentries
      · cases hread
  · cases hread

theorem bracedEntries {text : List Char} {entries : List MapEntry}
    (hread : bracedEntries inner text = .ok entries) :
    ∀ entry ∈ entries, Normal (.entry entry) := by
  simp only [Template.bracedEntries] at hread
  cases hentries : Template.mapEntries inner (withoutEnds text) with
  | ok found =>
      rw [hentries] at hread
      cases hread
      exact h.mapEntries hentries
  | error fault =>
      rw [hentries] at hread
      cases hread

theorem parenthesized : ReadsOnly (fun e => Normal (.expr e)) (parenthesized inner) := by
  refine .after fun _ => .cut (.under _ ?_)
  exact h.expression.lexeme.bind fun value hvalue => .after fun _ => .pure hvalue

theorem listLiteral : ReadsOnly (fun e => Normal (.expr e)) (listLiteral inner) := by
  refine .after fun _ => .cut (.under _ ?_)
  refine (Narrows.separated _ h.expression.lexeme).bind fun items hitems => ?_
  refine .after fun _ => .after fun _ => .pure (.of_children trivial fun _ _ hchild => ?_)
  cases hchild with
  | item he => exact hitems _ he

theorem doubleQuoted : ReadsOnly (fun e => Normal (.expr e)) (doubleQuoted inner) := by
  refine .of_done fun text e rest hread => ?_
  simp only [Template.doubleQuoted] at hread
  split at hread
  · split at hread
    · split at hread
      · rename_i hentries
        cases hread
        exact .map (h.mapLiteral.lexeme.wholly.holds hentries)
      · cases hread
      · cases hread
    · split at hread
      · rename_i hnodes
        cases hread
        exact normal_interpolation (h.nodeSequence.wholly.holds hnodes)
      · cases hread
  · cases hread
  · cases hread

theorem primary : ReadsOnly (fun e => Normal (.expr e)) (primary inner) := by
  refine .lexeme (.orElse h.parenthesized (.orElse ?_ (.orElse h.listLiteral (.orElse h.doubleQuoted
    (.orElse ?_ (.orElse readsOnly_numberLiteral (.orElse ?_ (.orElse ?_ (.orElse ?_ ?_)))))))))
  · exact h.mapLiteral.bind fun entries hentries => .pure (.map hentries)
  · exact .after fun body => .pure (.literal trivial)
  · exact .after fun _ => .pure (.literal trivial)
  · exact .after fun _ => .pure (.literal trivial)
  · exact .after fun _ => .pure (.literal trivial)
  · refine h.reference.bind fun r hr => .pure (.of_children trivial fun _ _ hchild => ?_)
    cases hchild
    exact hr

theorem unary : ReadsOnly (fun e => Normal (.expr e)) (unary inner) := by
  have hoperand := h.operand.cut
  refine .orElse ?_ (.orElse h.primary ?_)
  · refine .after fun _ => hoperand.bind fun operand ho => .pure ?_
    refine .of_children trivial fun _ _ hchild => ?_
    cases hchild
    exact ho
  · refine .after fun _ => hoperand.bind fun operand ho => .pure ?_
    refine .of_children trivial fun _ _ hchild => ?_
    cases hchild
    exact ho

end Inner.ReadsNormal

def NormalAbove {ω : Type} (build : ω → Expr → Expr → Expr) : Prop :=
  ∀ {left right : Expr}, Normal (.expr left) → Normal (.expr right) → ∀ op,
    Normal (.expr (build op left right))

theorem normalAbove_arithmetic : NormalAbove .arithmetic := by
  refine fun hleft hright op => .of_children trivial fun _ _ hchild => ?_
  cases hchild with
  | arithmeticLeft => exact hleft
  | arithmeticRight => exact hright

theorem normalAbove_comparison : NormalAbove .comparison := by
  refine fun hleft hright op => .of_children trivial fun _ _ hchild => ?_
  cases hchild with
  | comparisonLeft => exact hleft
  | comparisonRight => exact hright

theorem normalAbove_logical : NormalAbove .logical := by
  refine fun hleft hright op => .of_children trivial fun _ _ hchild => ?_
  cases hchild with
  | logicalLeft => exact hleft
  | logicalRight => exact hright

section

variable {ω : Type} {build : ω → Expr → Expr → Expr} (hbuild : NormalAbove build)
include hbuild

theorem normal_foldl {steps : List (ω × Expr)} {first : Expr} (hfirst : Normal (.expr first))
    (hsteps : ∀ step ∈ steps, Normal (.expr step.2)) :
    Normal (.expr (steps.foldl (fun left (op, right) => build op left right) first)) := by
  induction steps generalizing first with
  | nil => exact hfirst
  | cons step steps ih =>
      obtain ⟨op, right⟩ := step
      obtain ⟨hright, hsteps⟩ := List.forall_mem_cons.mp hsteps
      exact ih (hbuild hfirst hright op) hsteps

theorem readsOnly_chain {operand : Reader Expr}
    (hoperand : ReadsOnly (fun e => Normal (.expr e)) operand) (operator : Reader ω) :
    ReadsOnly (fun e => Normal (.expr e)) (chain operand operator build) := by
  refine hoperand.bind fun first hfirst start => ?_
  have hstep : ReadsOnly (fun step => Normal (.expr step.2)) (do
      let op ← lexeme operator
      let right ← cut operand
      return (op, right)) :=
    .after fun op => hoperand.cut.bind fun right hright => .pure hright
  refine hstep.many.bind (fun steps hsteps => ?_) start
  exact .refusing id (fun _ => ⟨_, rfl⟩) fun _ => .pure (normal_foldl hbuild hfirst hsteps)

end

namespace Inner

theorem ReadsNormal.around {inner : Inner} (h : inner.ReadsNormal)
    (hrereads : ReadsOnly (fun r => readReference r.literal.toList = .done r [])
      (Template.reference (Inner.around inner))) : (Inner.around inner).ReadsNormal where
  expression := by
    have hproduct := readsOnly_chain normalAbove_arithmetic h.unary multiplicativeOperator
    have hsum := readsOnly_chain normalAbove_arithmetic hproduct additiveOperator
    have hcomparison := readsOnly_chain normalAbove_comparison hsum comparisonOperator
    have hconjunction := readsOnly_chain normalAbove_logical hcomparison andOperator
    exact readsOnly_chain normalAbove_logical hconjunction orOperator
  operand := h.unary
  block := h.conditional
  braced _ _ hread := h.bracedEntries hread
  rereads := hrereads

theorem readsNormal_within {levels : Nat} (hlevels : levels ≤ maxNesting) :
    (within levels).ReadsNormal := by
  have hrereads {levels : Nat} (hlevels : levels ≤ maxNesting) :
      ReadsOnly (fun r => readReference r.literal.toList = .done r [])
        (reference (within levels)) :=
    .of_done fun _ _ _ hread => readReference_literal hlevels hread
  induction levels with
  | zero =>
      exact {
        expression := .halting _ _
        operand := .halting _ _
        block := .halting _ _
        braced := nofun
        rereads := hrereads hlevels }
  | succ levels ih =>
      have hlast := hrereads hlevels
      exact (ih (Nat.le_of_succ_le hlevels)).around hlast

end Inner

end Template

/-- Every part of a template is in its normal form, wherever it stands. -/
theorem Template.parse_normal {label source : String} {t : Template}
    (hparse : Template.parse label source = .ok t) :
    Merged t.nodes ∧ ∀ node ∈ t.nodes, ∀ part, (TreePart.node node).Contains part →
      part.IsNormal := by
  have hnodes := (Inner.readsNormal_within (Nat.le_refl maxNesting)).nodeSequence.holds
    (readNodes_of_parse hparse)
  exact ⟨hnodes.merged, hnodes.each⟩

namespace Template

def mergingSource : String :=
  "a##\nb$x.m(\"v$y\", %\x7bk=$z.to_quote\x7d, 3000000000)"

def mergingTemplate (label : String) : Template where
  label := label
  nodes :=
    [.text "ab",
      .reference (.mk false "x"
        [.method "m"
          [.interpolated [.text "v", .reference (.mk false "y" [] "$y")],
            .map [.mk "k" (.reference (.mk false "z" [] "$z") (some '"'))],
            .literal (.number (.integer .int64 3000000000 (by decide)))]]
        "$x.m(\"v$y\", %\x7bk=$z.to_quote\x7d, 3000000000)")]

end Template

theorem Template.parse_normal_merging :
    Template.parse "merging" mergingSource = .ok (mergingTemplate "merging") ∧
      Merged (mergingTemplate "merging").nodes ∧
        ∀ node ∈ (mergingTemplate "merging").nodes, ∀ part,
          (TreePart.node node).Contains part → part.IsNormal := by
  have hparse : Template.parse "merging" mergingSource = .ok (mergingTemplate "merging") := rfl
  exact ⟨hparse, Template.parse_normal hparse⟩

end Stencil
