import Stencil.Proofs.Delivery

/-! Resolvers with registries of their own behind one cache. An entry names a place in the registry
that it was selected from, and neither the entry nor its key says which registry that was. So a call
finds the place of a method that serves it in the registry of some holder of the cache, and invokes
whatever its own registry has at that place. -/

namespace Stencil

structure Method.Serves (m : Method) (c : Call) : Prop where
  typeName : m.typeName = c.receiver.typeName
  name : Text.lower m.name = Text.lower c.name
  arity : m.arity = c.arguments.length

theorem Call.lower_shape_method (r : Registry) (c : Call) :
    Text.lower (c.shape r).method = Text.lower c.name := by
  simp only [shape, Registry.callShape]
  split
  · rfl
  · exact Text.lower_lower _

namespace Registry

/-- The registry has a method that serves the call at the place of the resolution, whose plan is
for as many arguments as the call has. -/
structure Offers (r : Registry) (c : Call) (resolution : Resolution) : Prop where
  serves : ∃ m, r.method? resolution.method = some m ∧ m.Serves c
  planned : resolution.coercions.length = c.arguments.length

/-- What is selected for a call is offered for every call of its shape, whatever registry the other
call takes its shape from. -/
theorem offers_of_selected? {methods : List Method} {r : Registry} {c other : Call}
    {resolution : Resolution}
    (hselected : other.selected? (empty.defineAll methods) = some resolution)
    (hshape : other.shape (empty.defineAll methods) = c.shape r) :
    (empty.defineAll methods).Offers c resolution := by
  obtain ⟨i, hi, -, htype, hname, hall⟩ := receiveAll_of_selected? hselected
  obtain ⟨m, hm, rfl⟩ := Option.map_eq_some_iff.mp hi
  have htypes : other.receiver.typeName = c.receiver.typeName :=
    congrArg CallShape.typeName hshape
  have hnames : Text.lower other.name = Text.lower c.name := by
    rw [← Call.lower_shape_method (empty.defineAll methods), hshape, Call.lower_shape_method]
  have hlengths : other.arguments.length = c.arguments.length := by
    simpa [Call.shape, callShape] using congrArg (fun shape => shape.arguments.length) hshape
  obtain ⟨hparameters, hcoercions, -⟩ := hall.lengths_eq
  exact {
    serves := ⟨m, hm, htype.trans htypes, hname.trans hnames, hparameters.trans hlengths⟩
    planned := hcoercions.trans hlengths }

theorem invoke_eq (r : Registry) (c : Call) (resolution : Resolution) :
    r.invoke resolution c.receiver c.arguments =
      match r.invocationBy? c resolution with
      | some i => i.result c.receiver
      | none => .error (.notFound c.receiver.typeName resolution.method.text "") := by
  simp only [invoke, invocationBy?]
  cases r.method? resolution.method <;> rfl

end Registry

theorem ResolutionCache.get?_remember {r : Registry} (cache : ResolutionCache) {c : Call}
    {resolution : Resolution} (h : c.selected? r = some resolution) :
    (RecencyMap.get? (cache.remember r c) (c.shape r)).1 = some resolution := by
  simp only [ResolutionCache.remember, h, RecencyMap.get?_fst, RecencyMap.peek?_put_self]

def Visit.holder : Visit → Nat
  | .lookUp holder _ | .bind holder => holder

section

variable {registryOf : Nat → Registry} {among : Nat → Prop}

/-- One of the holders selects this for some call of the shape. -/
def Resolution.SelectedFor (registryOf : Nat → Registry) (among : Nat → Prop) (shape : CallShape)
    (resolution : Resolution) : Prop :=
  ∃ holder, ∃ c : Call, among holder ∧ c.shape (registryOf holder) = shape ∧
    c.selected? (registryOf holder) = some resolution

/-- Each entry of the cache was selected by one of the holders. -/
def ResolutionCache.Traced (registryOf : Nat → Registry) (among : Nat → Prop)
    (cache : ResolutionCache) : Prop :=
  ∀ shape resolution, cache.peek? shape = some resolution →
    resolution.SelectedFor registryOf among shape

namespace ResolutionCache.Traced

variable {cache : ResolutionCache}

theorem empty (capacity : Nat) (hpos : 0 < capacity) :
    Traced registryOf among (RecencyMap.empty capacity hpos) := by
  intro shape resolution h
  rw [RecencyMap.peek?_empty] at h
  exact nomatch h

theorem get? (h : Traced registryOf among cache) (shape : CallShape) :
    Traced registryOf among (cache.get? shape).2 := by
  intro other resolution hpeek
  rw [RecencyMap.peek?_get?] at hpeek
  exact h other resolution hpeek

theorem remember (h : Traced registryOf among cache) {holder : Nat} (hholder : among holder)
    (c : Call) : Traced registryOf among (cache.remember (registryOf holder) c) := by
  intro shape resolution hpeek
  simp only [ResolutionCache.remember] at hpeek
  split at hpeek
  · rename_i selected hselected
    rcases RecencyMap.peek?_of_peek?_put hpeek with ⟨rfl, rfl⟩ | hold
    · exact ⟨holder, c, hholder, rfl, hselected⟩
    · exact h shape resolution hold
  · exact h shape resolution hpeek

end ResolutionCache.Traced

namespace Shared

/-- The answers of a run in which every holder has a registry of its own, each with its holder. -/
def answersOf (registryOf : Nat → Registry) (s : Shared) : List Visit → List (Nat × Answer)
  | [] => []
  | v :: rest =>
      let (answer, s) := s.visit (registryOf v.holder) v
      (answer.map (v.holder, ·)).toList ++ s.answersOf registryOf rest

/-- Holders of one registry answer as they do without regard to who they are. -/
theorem answersOf_const (r : Registry) (s : Shared) (visits : List Visit) :
    (s.answersOf (fun _ => r) visits).map Prod.snd = s.answers r visits := by
  induction visits generalizing s with
  | nil => rfl
  | cons v rest ih =>
      simp only [answersOf, answers, List.map_append, ih]
      cases (s.visit r v).1 <;> rfl

theorem visit_traced {s : Shared} (h : s.cache.Traced registryOf among) {v : Visit}
    (hholder : among v.holder) :
    (∀ answer ∈ (s.visit (registryOf v.holder) v).1, ∀ resolution,
      answer.result = .ok resolution →
        resolution.SelectedFor registryOf among (answer.call.shape (registryOf v.holder))) ∧
      (s.visit (registryOf v.holder) v).2.cache.Traced registryOf among := by
  cases v with
  | lookUp holder call =>
      have hfound := RecencyMap.get?_fst s.cache (call.shape (registryOf holder))
      have hkept := h.get? (call.shape (registryOf holder))
      simp only [visit, Visit.holder]
      split
      · exact ⟨fun _ hnone => absurd hnone (Option.not_mem_none _), h⟩
      · split
        · rename_i found cache hget
          rw [hget] at hfound hkept
          refine ⟨?_, hkept⟩
          rintro answer ⟨⟩ resolution ⟨⟩
          exact h _ _ hfound.symm
        · rename_i cache hget
          rw [hget] at hkept
          exact ⟨fun _ hnone => absurd hnone (Option.not_mem_none _), hkept⟩
  | bind holder =>
      simp only [visit, Visit.holder]
      split
      · exact ⟨fun _ hnone => absurd hnone (Option.not_mem_none _), h⟩
      · rename_i call hmissed
        refine ⟨?_, h.remember hholder call⟩
        rintro answer ⟨⟩ resolution hcold
        refine ⟨holder, call, hholder, rfl, ?_⟩
        simp only [Call.cold] at hcold
        split at hcold
        · rename_i selected hselected
          cases hcold
          exact hselected
        · cases hcold

theorem selectedFor_of_mem_answersOf {s : Shared} (h : s.cache.Traced registryOf among)
    {visits : List Visit} (hvisits : ∀ v ∈ visits, among v.holder) {holder : Nat} {answer : Answer}
    (hmem : (holder, answer) ∈ s.answersOf registryOf visits) {resolution : Resolution}
    (hresult : answer.result = .ok resolution) :
    resolution.SelectedFor registryOf among (answer.call.shape (registryOf holder)) := by
  induction visits generalizing s with
  | nil => exact nomatch hmem
  | cons v rest ih =>
      obtain ⟨hv, hrest⟩ := List.forall_mem_cons.mp hvisits
      obtain ⟨hanswer, hkept⟩ := visit_traced h hv
      simp only [answersOf, List.mem_append, Option.mem_toList, Option.map_eq_some_iff]
        at hmem
      rcases hmem with ⟨found, hfound, heq⟩ | hmem
      · cases heq
        exact hanswer answer hfound resolution hresult
      · exact ih hkept hrest hmem

def handedOver (holder other : Nat) (c c' : Call) : List Visit :=
  [.lookUp holder c, .bind holder, .lookUp other c']

theorem mem_answersOf_handedOver {capacity : Nat} (hpos : 0 < capacity) {holder other : Nat}
    {c c' : Call} (hshape : c'.shape (registryOf other) = c.shape (registryOf holder))
    {resolution : Resolution}
    (hselected : c.selected? (registryOf holder) = some resolution) :
    (other, ⟨c', .ok resolution⟩) ∈
      (start capacity hpos).answersOf registryOf (handedOver holder other c c') := by
  cases hfirst : (RecencyMap.empty capacity hpos : ResolutionCache).get?
      (c.shape (registryOf holder)) with
  | mk found cache =>
      have hmiss := RecencyMap.get?_fst (RecencyMap.empty capacity hpos : ResolutionCache)
        (c.shape (registryOf holder))
      rw [hfirst, RecencyMap.peek?_empty] at hmiss
      cases hmiss
      cases hsecond : RecencyMap.get? (ResolutionCache.remember (registryOf holder) cache c)
          (c'.shape (registryOf other)) with
      | mk found after =>
          have hhit := ResolutionCache.get?_remember cache hselected
          rw [← hshape, hsecond] at hhit
          cases hhit
          simp [handedOver, answersOf, visit, Visit.holder, start, hfirst, hsecond]

end Shared

end

theorem Registry.Offers.length_received {r own : Registry} {c : Call} {resolution : Resolution}
    (h : r.Offers c resolution) {i : Invocation}
    (hi : own.invocationBy? c resolution = some i) :
    own.method? resolution.method = some i.method ∧ i.received.length = c.arguments.length := by
  obtain ⟨m, hm, rfl⟩ := Option.map_eq_some_iff.mp hi
  refine ⟨hm, ?_⟩
  rw [List.length_zipWith, h.planned, Nat.min_self]

/-- A call that resolves is given the place of a method that serves it in the registry of one of
the holders, and hands as many values as it has arguments to whatever its own registry has at that
place. Where all holders have the same methods, the method there serves the call. -/
theorem shared_calls_take_offered_place (declared : Nat → List Method) (capacity : Nat)
    (hpos : 0 < capacity) (visits : List Visit) :
    let registryOf holder := Registry.empty.defineAll (declared holder)
    ∀ holder answer resolution,
      (holder, answer) ∈ (Shared.start capacity hpos).answersOf registryOf visits →
      answer.result = .ok resolution →
      (∃ v ∈ visits, (registryOf v.holder).Offers answer.call resolution) ∧
      ((registryOf holder).invoke resolution answer.call.receiver answer.call.arguments =
        match (registryOf holder).invocationBy? answer.call resolution with
        | some i => i.result answer.call.receiver
        | none => .error (.notFound answer.call.receiver.typeName resolution.method.text "")) ∧
      (∀ i, (registryOf holder).invocationBy? answer.call resolution = some i →
        (registryOf holder).method? resolution.method = some i.method ∧
          i.received.length = answer.call.arguments.length) ∧
      ((∀ v ∈ visits, declared v.holder = declared holder) →
        ∃ i, (registryOf holder).invocationBy? answer.call resolution = some i ∧
          i.method.Serves answer.call ∧ i.received.length = i.method.arity) := by
  intro registryOf holder answer resolution hmem hresult
  have hempty : (Shared.start capacity hpos).cache.Traced registryOf
      (fun other => ∃ v ∈ visits, v.holder = other) := .empty capacity hpos
  obtain ⟨_, c, ⟨v, hv, rfl⟩, hshape, hselected⟩ :=
    Shared.selectedFor_of_mem_answersOf hempty (fun v hv => ⟨v, hv, rfl⟩) hmem hresult
  have hoffers : (registryOf v.holder).Offers answer.call resolution :=
    Registry.offers_of_selected? hselected hshape
  refine ⟨⟨v, hv, hoffers⟩, Registry.invoke_eq _ _ _, fun i hi => hoffers.length_received hi, ?_⟩
  intro hsame
  obtain ⟨m, hm, hserves⟩ := hoffers.serves
  have hregistry : registryOf v.holder = registryOf holder :=
    congrArg Registry.empty.defineAll (hsame v hv)
  rw [hregistry] at hm
  have hi : (registryOf holder).invocationBy? answer.call resolution = some _ :=
    Option.map_eq_some_iff.mpr ⟨m, hm, rfl⟩
  exact ⟨_, hi, hserves, (hoffers.length_received hi).2.trans hserves.arity.symm⟩

def giving (typeName name : String) (parameters : List Parameter) (value : Value) : Method :=
  { typeName, name, parameters, action := fun _ _ => .ok value }

def crossedMethods : Nat → List Method
  | 0 => [giving "A" "f" [] (.text "right")]
  | _ => [giving "B" "g" [.any] (.text "wrong"), giving "A" "f" [] (.text "right")]

def crossedCall : Call :=
  ⟨.object { typeName := "A", identity := 0, payload := "default" }, "f", []⟩

/-- Two holders that have the same methods both come to the one that serves their call. -/
theorem shared_calls_take_offered_place_alike :
    let registryOf holder := Registry.empty.defineAll (crossedMethods holder)
    let visits := Shared.handedOver 1 2 crossedCall crossedCall
    0 < 1 ∧
    (2, ⟨crossedCall, .ok ⟨⟨1⟩, []⟩⟩) ∈
      (Shared.start 1 Nat.one_pos).answersOf registryOf visits ∧
    (∀ v ∈ visits, crossedMethods v.holder = crossedMethods 2) ∧
    ∃ i, (registryOf 2).invocationBy? crossedCall ⟨⟨1⟩, []⟩ = some i ∧
      i.method.Serves crossedCall ∧ i.received.length = i.method.arity := by
  intro registryOf visits
  have hmem : (2, ⟨crossedCall, .ok ⟨⟨1⟩, []⟩⟩) ∈
      (Shared.start 1 Nat.one_pos).answersOf registryOf visits :=
    Shared.mem_answersOf_handedOver Nat.one_pos (by decide) (by decide)
  have hsame : ∀ v ∈ visits, crossedMethods v.holder = crossedMethods 2 := by
    simp [visits, Shared.handedOver, Visit.holder, crossedMethods]
  obtain ⟨-, -, -, hserved⟩ :=
    shared_calls_take_offered_place crossedMethods 1 Nat.one_pos visits _ _ _ hmem rfl
  exact ⟨Nat.one_pos, hmem, hsame, hserved hsame⟩

/-- The place of a method without parameters in one registry leads to a method of another type,
with another name and a parameter, in the other one, which has a method that serves the call
elsewhere. -/
theorem shared_call_misdirected :
    let registryOf holder := Registry.empty.defineAll (crossedMethods holder)
    ∃ resolution i right,
      (1, ⟨crossedCall, .ok resolution⟩) ∈
        (Shared.start 1 Nat.one_pos).answersOf registryOf
          (Shared.handedOver 0 1 crossedCall crossedCall) ∧
      (registryOf 1).invocationBy? crossedCall resolution = some i ∧
      i.method.typeName ≠ crossedCall.receiver.typeName ∧
      Text.lower i.method.name ≠ Text.lower crossedCall.name ∧
      i.received.length ≠ i.method.arity ∧
      (registryOf 1).invoke resolution crossedCall.receiver crossedCall.arguments =
        .ok (.text "wrong") ∧
      crossedCall.selected? (registryOf 1) = some right ∧
      (registryOf 1).invoke right crossedCall.receiver crossedCall.arguments =
        .ok (.text "right") := by
  intro registryOf
  have hmem : (1, ⟨crossedCall, .ok ⟨⟨0⟩, []⟩⟩) ∈
      (Shared.start 1 Nat.one_pos).answersOf registryOf
        (Shared.handedOver 0 1 crossedCall crossedCall) :=
    Shared.mem_answersOf_handedOver Nat.one_pos (by decide) (by decide)
  refine ⟨⟨⟨0⟩, []⟩, _, ⟨⟨1⟩, []⟩, hmem, rfl, ?_⟩
  exact ⟨by decide, by decide, by decide, rfl, by decide, rfl⟩

end Stencil
