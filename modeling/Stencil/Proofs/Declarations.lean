import Mathlib.Data.List.Nodup
import Stencil.Proofs.Registry

namespace Stencil

/-- One declaration: a method as it stands, or a member of the host objects with a payload, which
may be one that yields the same value whenever it is asked for. -/
inductive Declaration where
  | method (m : Method)
  | member (payload typeName name : String) (parameters : List Parameter)
      (action : HostObject → List Value → Except Failure Value)
  | constant (payload typeName name : String) (value : Value)

def Declaration.declared : Declaration → Method
  | .method m => m
  | .member payload typeName name parameters action =>
      .onPayload payload typeName name parameters action
  | .constant payload typeName name value =>
      .onPayload payload typeName name [] fun _ _ => .ok value

namespace Registry

def declareAll (r : Registry) : List Declaration → List MethodId × Registry
  | [] => ([], r)
  | d :: rest =>
      let (id, r) := r.define d.declared
      let (ids, r) := r.declareAll rest
      (id :: ids, r)

theorem declareAll_snd (r : Registry) (declarations : List Declaration) :
    (r.declareAll declarations).2 = r.defineAll (declarations.map Declaration.declared) := by
  induction declarations generalizing r with
  | nil => rfl
  | cons d rest ih => exact ih _

theorem declareAll_fst (r : Registry) (declarations : List Declaration) :
    (r.declareAll declarations).1 =
      (List.range' r.methods.size declarations.length).map MethodId.mk := by
  induction declarations generalizing r with
  | nil => rfl
  | cons d rest ih =>
      have hsize : (r.define d.declared).2.methods.size = r.methods.size + 1 :=
        Array.size_push d.declared
      change (r.define d.declared).1 :: ((r.define d.declared).2.declareAll rest).1 = _
      rw [ih, hsize, List.length_cons, List.range'_succ, List.map_cons]
      rfl

theorem toList_methods_defineAll (r : Registry) (methods : List Method) :
    (r.defineAll methods).methods.toList = r.methods.toList ++ methods := by
  induction methods generalizing r with
  | nil => exact (List.append_nil _).symm
  | cons m rest ih =>
      have hpush : (r.define m).2.methods.toList = r.methods.toList ++ [m] := Array.toList_push
      change ((r.define m).2.defineAll rest).methods.toList = _
      rw [ih, hpush, List.append_assoc, List.singleton_append]

theorem method?_declareAll (declarations : List Declaration) (k : Nat) :
    (empty.declareAll declarations).2.method? ⟨k⟩ = declarations[k]?.map Declaration.declared := by
  have hmethods : (empty.defineAll (declarations.map Declaration.declared)).methods.toList =
      declarations.map Declaration.declared :=
    toList_methods_defineAll empty _
  rw [declareAll_snd, method?, ← Array.getElem?_toList, hmethods, List.getElem?_map]

theorem map_method?_declareAll (declarations : List Declaration) :
    (empty.declareAll declarations).1.map (empty.declareAll declarations).2.method? =
      declarations.map fun d => some d.declared := by
  rw [declareAll_fst, List.map_map]
  refine List.ext_getElem (by simp) fun k hk hk' => ?_
  rw [List.length_map] at hk'
  have hsize : empty.methods.size = 0 := rfl
  simp [hsize, method?_declareAll, hk']

theorem filterMap_candidate?_zipIdx (typeName : String) (methods : List Method) (n : Nat) :
    (methods.zipIdx n).filterMap (candidate? typeName) =
      (((List.range' n methods.length).map MethodId.mk).zip methods).filter
        (typeName == ·.2.typeName) := by
  induction methods generalizing n with
  | nil => rfl
  | cons m rest ih =>
      rw [List.zipIdx_cons, List.filterMap_cons, ih, List.length_cons, List.range'_succ,
        List.map_cons, List.zip_cons_cons, List.filter_cons, candidate?]
      by_cases htype : typeName = m.typeName <;> simp [htype]

theorem candidates_declareAll (declarations : List Declaration) (typeName : String) :
    (empty.declareAll declarations).2.candidates typeName =
      ((empty.declareAll declarations).1.zip (declarations.map Declaration.declared)).filter
        (typeName == ·.2.typeName) := by
  have hnone : empty.candidates typeName = [] := rfl
  rw [declareAll_snd, declareAll_fst, candidates_defineAll consistent_empty, hnone,
    List.nil_append, filterMap_candidate?_zipIdx, List.length_map]

theorem nodup_declareAll (declarations : List Declaration) :
    (empty.declareAll declarations).1.Nodup := by
  rw [declareAll_fst]
  exact List.Nodup.map (fun _ _ heq => congrArg MethodId.index heq) (by simp [List.nodup_range'])

theorem exists_declared_of_mem {declarations : List Declaration} {typeName : String}
    {c : MethodId × Method}
    (h : c ∈ (empty.declareAll declarations).2.candidates typeName) :
    ∃ d ∈ declarations, d.declared = c.2 ∧ d.declared.typeName = typeName := by
  obtain ⟨id, m⟩ := c
  rw [declareAll_snd, mem_candidates_iff] at h
  obtain ⟨d, hd, hm⟩ := List.mem_map.mp (List.mem_of_getElem? h.1)
  exact ⟨d, hd, hm, hm ▸ h.2⟩

theorem exists_mem_of_declared {declarations : List Declaration} {d : Declaration}
    (h : d ∈ declarations) :
    ∃ c ∈ (empty.declareAll declarations).2.candidates d.declared.typeName,
      c.2 = d.declared := by
  obtain ⟨k, hk⟩ := List.mem_iff_getElem?.mp (List.mem_map_of_mem h)
  refine ⟨(⟨k⟩, d.declared), ?_, rfl⟩
  rw [declareAll_snd, mem_candidates_iff]
  exact ⟨hk, rfl⟩

/-- The first declaration of all to the last one, the id of each finds what was declared. The
methods of a type are listed in the order of their declarations, each of them once and no other, and
a type counts a small form as respelled exactly when two of its methods that have the form are
spelled in different ways. -/
theorem declarations_found (declarations : List Declaration) :
    let ids := (empty.declareAll declarations).1
    let registry := (empty.declareAll declarations).2
    ids.map registry.method? = declarations.map (fun d => some d.declared) ∧ ids.Nodup ∧
      (∀ typeName, registry.candidates typeName =
        (ids.zip (declarations.map Declaration.declared)).filter (typeName == ·.2.typeName)) ∧
      ∀ typeName folded, registry.hasCaseVariants typeName folded = true ↔
        ∃ a ∈ declarations, ∃ b ∈ declarations,
          a.declared.typeName = typeName ∧ b.declared.typeName = typeName ∧
          a.declared.name ≠ b.declared.name ∧
          Text.lower a.declared.name = folded ∧ Text.lower b.declared.name = folded := by
  intro ids registry
  have hr : registry.Consistent := by
    rw [show registry = _ from declareAll_snd empty declarations]
    exact consistent_defineAll _
  refine ⟨map_method?_declareAll declarations, nodup_declareAll declarations,
    candidates_declareAll declarations, fun typeName folded => ?_⟩
  rw [hr.variants]
  constructor
  · rintro ⟨a, ha, b, hb, hnames⟩
    obtain ⟨d, hd, hdeclared, htype⟩ := exists_declared_of_mem ha
    obtain ⟨d', hd', hdeclared', htype'⟩ := exists_declared_of_mem hb
    rw [← hdeclared, ← hdeclared'] at hnames
    exact ⟨d, hd, d', hd', htype, htype', hnames⟩
  · rintro ⟨d, hd, d', hd', rfl, htype', hnames⟩
    obtain ⟨a, ha, hdeclared⟩ := exists_mem_of_declared hd
    obtain ⟨b, hb, hdeclared'⟩ := exists_mem_of_declared hd'
    rw [htype'] at hb
    rw [← hdeclared, ← hdeclared'] at hnames
    exact ⟨a, ha, b, hb, hnames⟩

end Registry

end Stencil
