import Stencil.Proofs.Limits

namespace Stencil

open Template

namespace Template.Limits

/-- The most parts that a path through an accepted tree can have. -/
def pathLength (limits : Limits) : Nat :=
  limits.nesting * (5 * limits.operators + 6) + 3

section

variable {tight wide : Limits} (hnesting : tight.nesting ≤ wide.nesting)
  (hoperators : tight.operators ≤ wide.operators) {label source : String} {t : Template}
include hnesting hoperators

theorem nodeSequence_narrows :
    Reader.Narrows
      (fun nodes => ∀ node ∈ nodes, TreePart.Fits (tight.nesting + 1) tight.pathLength (.node node))
      (nodeSequence tight.inner) (nodeSequence wide.inner) :=
  (Inner.Narrows.withinUpTo hoperators hnesting).nodeSequence

/-- Wider limits let everything through that tighter ones do, and unchanged. -/
theorem parse_wider (hparse : tight.parse label source = .ok t) :
    wide.parse label source = .ok t := by
  have hread := nodeSequence_narrows hnesting hoperators source.toList
  simp only [parse] at hparse ⊢
  generalize nodeSequence tight.inner source.toList = r,
    nodeSequence wide.inner source.toList = s at hread hparse ⊢
  cases hread with
  | halt fault _ => cases hparse
  | miss fault => cases hparse
  | done rest _ => exact hparse

end

variable {limits limits' : Limits} {label source : String} {t t' : Template}

theorem path_bounds (hparse : limits.parse label source = .ok t) {steps parts : Nat}
    (hpath : t.HasPath steps parts) : steps ≤ limits.nesting ∧ parts ≤ limits.pathLength := by
  have hread := nodeSequence_narrows (Nat.le_refl limits.nesting) (Nat.le_refl limits.operators)
    source.toList
  simp only [parse] at hparse
  generalize nodeSequence limits.inner source.toList = r at hread hparse
  cases hread with
  | halt fault _ => cases hparse
  | miss fault => cases hparse
  | done rest hfits =>
      cases rest with
      | cons c rest => cases hparse
      | nil =>
          cases hparse
          obtain ⟨node, hnode, hpath⟩ := hpath
          obtain ⟨hsteps, hparts⟩ := hfits node hnode steps parts hpath
          exact ⟨Nat.le_of_lt_succ hsteps, hparts⟩

theorem eq_of_parse (hparse : limits.parse label source = .ok t)
    (hparse' : limits'.parse label source = .ok t') : t = t' := by
  let wide : Limits := {
    nesting := max limits.nesting limits'.nesting
    operators := max limits.operators limits'.operators }
  have hwide : wide.parse label source = .ok t :=
    parse_wider (Nat.le_max_left ..) (Nat.le_max_left ..) hparse
  have hwide' : wide.parse label source = .ok t' :=
    parse_wider (Nat.le_max_right ..) (Nat.le_max_right ..) hparse'
  exact Except.ok.inj (hwide.symm.trans hwide')

end Template.Limits

/-- Every path through the tree of an accepted template has at most 64 counted steps and at most
64 * 1300 parts, and a source whose tree has a longer path under any limits is refused. -/
theorem Template.parse_bounds_trees (label source : String) :
    (∀ t, Template.parse label source = .ok t → ∀ steps parts, t.HasPath steps parts →
      steps ≤ 64 ∧ parts ≤ 64 * 1300) ∧
    ∀ (limits : Limits) (t : Template), limits.parse label source = .ok t →
      ∀ steps parts, t.HasPath steps parts → 64 < steps ∨ 64 * 1300 < parts →
        ∃ error, Template.parse label source = .error error := by
  have hbounds (t : Template) (hparse : Template.parse label source = .ok t) (steps parts : Nat)
      (hpath : t.HasPath steps parts) : steps ≤ 64 ∧ parts ≤ 64 * 1300 := by
    rw [← Limits.usual_parse] at hparse
    obtain ⟨hsteps, hparts⟩ := Limits.path_bounds hparse hpath
    have hlength : Limits.usual.pathLength ≤ 64 * 1300 := by decide
    exact ⟨hsteps, hparts.trans hlength⟩
  refine ⟨hbounds, ?_⟩
  intro limits t hparse steps parts hpath hlong
  cases husual : Template.parse label source with
  | error error => exact ⟨error, rfl⟩
  | ok t' =>
      have hsame : t = t' := Limits.eq_of_parse hparse ((Limits.usual_parse ..).trans husual)
      have hshort := hbounds t' husual steps parts (hsame ▸ hpath)
      omega

namespace Template

def negations (operand : Expr) : Nat → Expr
  | 0 => operand
  | count + 1 => .not (negations operand count)

def negatedCall (count : Nat) : List Char :=
  "$b.m(".toList ++ List.replicate count '!' ++ "true)".toList

def negatedSource (outer inner : Nat) : String :=
  String.ofList
    ("#set($a=".toList ++ List.replicate outer '!' ++ ['"'] ++ negatedCall inner ++ ['"', ')'])

def negatedReference (count : Nat) : Reference :=
  .mk false "b" [.method "m" [negations (.literal (.boolean true)) count]]
    (String.ofList (negatedCall count))

def negatedTemplate (label : String) (outer inner : Nat) : Template where
  label := label
  nodes := [.set "a" (negations (.interpolated [.reference (negatedReference inner)]) outer)]

theorem path_negations {operand : Expr} {steps parts : Nat}
    (hpath : TreePart.Path (.expr operand) steps parts) (count : Nat) :
    TreePart.Path (.expr (negations operand count)) (steps + count) (parts + count) := by
  induction count with
  | zero => exact hpath
  | succ count ih => exact .down (.notOperand _) ih

theorem hasPath_negatedTemplate (label : String) (outer inner : Nat) :
    (negatedTemplate label outer inner).HasPath (inner + outer + 2) (inner + outer + 6) := by
  have hreference :
      TreePart.Path (.reference (negatedReference inner)) (inner + 1) (inner + 3) := by
    have hcall := path_negations (.here (.expr (.literal (.boolean true)))) inner
    rw [Nat.zero_add, Nat.add_comm 1] at hcall
    exact .down (.accessor _ _ _ (List.mem_singleton_self _))
      (.down (.argument _ (List.mem_singleton_self _)) hcall)
  have hquoted : TreePart.Path (.expr (.interpolated [.reference (negatedReference inner)]))
      (inner + 1) (inner + 5) :=
    .down (.interpolated (List.mem_singleton_self _)) (.down (.nodeReference _) hreference)
  have hpath := TreePart.Path.down (.setValue "a" _) (path_negations hquoted outer)
  have hsteps : inner + 1 + outer + true.toNat = inner + outer + 2 := by
    rw [Bool.toNat_true]
    omega
  have hparts : inner + 5 + outer + 1 = inner + outer + 6 := by omega
  rw [hsteps, hparts] at hpath
  exact ⟨_, List.mem_singleton_self _, hpath⟩

set_option maxRecDepth 4000 in
/-- 64 steps pass. One more is refused, also inside a text. -/
theorem parse_bounds_negated :
    (∃ t, Template.parse "negated" (negatedSource 32 30) = .ok t ∧ t.HasPath 64 68 ∧
      64 ≤ 64 ∧ 68 ≤ 64 * 1300) ∧
      ∃ error, Template.parse "negated" (negatedSource 32 31) = .error error := by
  have haccepted : Template.parse "negated" (negatedSource 32 30) =
      .ok (negatedTemplate "negated" 32 30) := rfl
  have hwider : Limits.parse ⟨65, 0⟩ "negated" (negatedSource 32 31) =
      .ok (negatedTemplate "negated" 32 31) := rfl
  have hpath := hasPath_negatedTemplate "negated" 32
  obtain ⟨hbounds, -⟩ := Template.parse_bounds_trees "negated" (negatedSource 32 30)
  obtain ⟨-, hrefused⟩ := Template.parse_bounds_trees "negated" (negatedSource 32 31)
  exact ⟨⟨_, haccepted, hpath 30, hbounds _ haccepted _ _ (hpath 30)⟩,
    hrefused _ _ hwider _ _ (hpath 31) (.inl (by decide))⟩

end Template

end Stencil
