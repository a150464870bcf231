import Mathlib.Data.List.Basic
import Stencil.Member.Registry
import Stencil.Proofs.Entries

namespace Stencil.Registry

theorem idsOf_define (r : Registry) (m : Method) (typeName : String) :
    (r.define m).2.idsOf typeName =
      r.idsOf typeName ++ if typeName = m.typeName then [(r.define m).1] else [] := by
  simp only [define, idsOf, Entries.find?_put]
  split
  · rename_i h
    rw [h]
    rfl
  · rw [List.append_nil]

/-- Methods are found at their ids, and a name counts as respelled when two methods of the type
share its small form but not its spelling. -/
structure Consistent (r : Registry) : Prop where
  inRange : ∀ typeName, ∀ id ∈ r.idsOf typeName, id.index < r.methods.size
  variants : ∀ typeName folded, r.hasCaseVariants typeName folded = true ↔
    ∃ a ∈ r.candidates typeName, ∃ b ∈ r.candidates typeName,
      a.2.name ≠ b.2.name ∧ Text.lower a.2.name = folded ∧ Text.lower b.2.name = folded

theorem candidates_define {r : Registry} (hr : r.Consistent) (m : Method) (typeName : String) :
    (r.define m).2.candidates typeName =
      r.candidates typeName ++ if typeName = m.typeName then [((r.define m).1, m)] else [] := by
  have hold : (r.idsOf typeName).filterMap
      (fun id => ((r.define m).2.method? id).map (id, ·)) = r.candidates typeName := by
    apply List.filterMap_congr
    intro id hid
    have hlt := hr.inRange typeName id hid
    simp only [define, method?, Array.getElem?_push_lt hlt, Array.getElem?_eq_getElem hlt]
  rw [candidates, idsOf_define, List.filterMap_append, hold]
  congr 1
  split
  · simp [define, method?]
  · rfl

theorem hasCaseVariants_define (r : Registry) (m : Method) (typeName folded : String) :
    (r.define m).2.hasCaseVariants typeName folded = true ↔
      r.hasCaseVariants typeName folded = true ∨
      (typeName = m.typeName ∧ folded = Text.lower m.name ∧
        ∃ a ∈ r.candidates typeName, a.2.name ≠ m.name ∧ Text.lower a.2.name = folded) := by
  simp only [define, hasCaseVariants, List.contains_iff_mem]
  split
  · rename_i hany
    simp only [List.any_eq_true, Bool.and_eq_true, bne_iff_ne, beq_iff_eq] at hany
    rw [List.mem_insert_iff, Prod.mk.injEq, or_comm]
    refine or_congr_right ⟨?_, ?_⟩
    · rintro ⟨rfl, rfl⟩
      exact ⟨rfl, rfl, hany⟩
    · rintro ⟨htype, hfolded, -⟩
      exact ⟨htype, hfolded⟩
  · rename_i hany
    refine ⟨.inl, ?_⟩
    rintro (hmem | ⟨rfl, rfl, a, ha, hname, hlower⟩)
    · exact hmem
    · refine absurd (List.any_eq_true.mpr ⟨a, ha, ?_⟩) hany
      simp [hname, hlower]

theorem consistent_empty : empty.Consistent where
  inRange typeName id hid := nomatch hid
  variants typeName folded := by
    simp [hasCaseVariants, candidates, idsOf, Entries.find?, empty]

theorem Consistent.define {r : Registry} (hr : r.Consistent) (m : Method) :
    (r.define m).2.Consistent where
  inRange typeName id hid := by
    rw [idsOf_define, List.mem_append] at hid
    simp only [Registry.define, Array.size_push]
    rcases hid with hid | hid
    · exact Nat.lt_succ_of_lt (hr.inRange typeName id hid)
    · split at hid
      · rw [List.mem_singleton] at hid
        subst hid
        exact Nat.lt_succ_self _
      · exact nomatch hid
  variants typeName folded := by
    rw [hasCaseVariants_define, hr.variants, candidates_define hr]
    by_cases htype : typeName = m.typeName
    · simp only [htype, if_true, true_and, List.mem_append, List.mem_singleton]
      constructor
      · rintro (⟨a, ha, b, hb, hnames⟩ | ⟨rfl, a, ha, hname, hlower⟩)
        · exact ⟨a, .inl ha, b, .inl hb, hnames⟩
        · exact ⟨a, .inl ha, _, .inr rfl, hname, hlower, rfl⟩
      · rintro ⟨a, ha | rfl, b, hb | rfl, hname, hlower, hlower'⟩
        · exact .inl ⟨a, ha, b, hb, hname, hlower, hlower'⟩
        · exact .inr ⟨hlower'.symm, a, ha, hname, hlower⟩
        · exact .inr ⟨hlower.symm, b, hb, hname.symm, hlower'⟩
        · exact absurd rfl hname
    · simp [htype]

theorem Consistent.defineAll {r : Registry} (hr : r.Consistent) (methods : List Method) :
    (r.defineAll methods).Consistent := by
  induction methods generalizing r with
  | nil => exact hr
  | cons m rest ih => exact ih (hr.define m)

def candidate? (typeName : String) : Method × Nat → Option (MethodId × Method)
  | (m, index) => if typeName = m.typeName then some (⟨index⟩, m) else none

theorem candidate?_eq_some_iff {typeName : String} {declared : Method × Nat}
    {candidate : MethodId × Method} :
    candidate? typeName declared = some candidate ↔
      typeName = declared.1.typeName ∧ candidate = (⟨declared.2⟩, declared.1) := by
  rw [candidate?, Option.ite_none_right_eq_some, Option.some_inj, eq_comm (a := candidate)]

theorem candidates_defineAll {r : Registry} (hr : r.Consistent) (methods : List Method)
    (typeName : String) :
    (r.defineAll methods).candidates typeName =
      r.candidates typeName ++ (methods.zipIdx r.methods.size).filterMap (candidate? typeName) := by
  induction methods generalizing r with
  | nil => exact (List.append_nil _).symm
  | cons m rest ih =>
      have hsize : (r.define m).2.methods.size = r.methods.size + 1 := Array.size_push m
      change ((r.define m).2.defineAll rest).candidates typeName = _
      rw [ih (hr.define m), candidates_define hr, hsize, List.append_assoc, List.zipIdx_cons,
        List.filterMap_cons, candidate?]
      congr 1
      split <;> rfl

theorem mem_candidates_iff {methods : List Method} {typeName : String} {id : MethodId}
    {m : Method} :
    (id, m) ∈ (empty.defineAll methods).candidates typeName ↔
      methods[id.index]? = some m ∧ m.typeName = typeName := by
  have hnone : empty.candidates typeName = [] := rfl
  rw [candidates_defineAll consistent_empty, hnone, List.nil_append, List.mem_filterMap]
  constructor
  · rintro ⟨⟨m', index⟩, hmem, heq⟩
    obtain ⟨htype, hcandidate⟩ := candidate?_eq_some_iff.mp heq
    cases hcandidate
    exact ⟨List.mk_mem_zipIdx_iff_getElem?.mp hmem, htype.symm⟩
  · rintro ⟨hdeclared, rfl⟩
    exact ⟨(m, id.index), List.mk_mem_zipIdx_iff_getElem?.mpr hdeclared, if_pos rfl⟩

theorem pairwise_candidates (methods : List Method) (typeName : String) :
    ((empty.defineAll methods).candidates typeName).Pairwise (·.1.index < ·.1.index) := by
  have hnone : empty.candidates typeName = [] := rfl
  rw [candidates_defineAll consistent_empty, hnone, List.nil_append]
  have hplaces : (methods.zipIdx empty.methods.size).Pairwise (·.2 < ·.2) := by
    rw [List.pairwise_iff_getElem]
    intro i j hi hj hlt
    simpa using hlt
  refine hplaces.filterMap _ ?_
  intro first second hlt found hfound found' hfound'
  obtain ⟨-, rfl⟩ := candidate?_eq_some_iff.mp hfound
  obtain ⟨-, rfl⟩ := candidate?_eq_some_iff.mp hfound'
  exact hlt

theorem consistent_defineAll (methods : List Method) : (empty.defineAll methods).Consistent :=
  consistent_empty.defineAll methods

end Stencil.Registry
