import Stencil.Member.Builtin
import Stencil.Member.Resolver
import Stencil.Proofs.Recency
import Stencil.Proofs.Registry
import Stencil.Proofs.SmallForm

/-! Remembered resolutions are the ones that a fresh selection would make. A cache is sound when
each of its entries is what selection yields for every call of the entry's shape; look-ups,
bindings and evictions keep it sound, in whatever order the holders of the cache make them. -/

namespace Stencil

namespace Registry

def sharing (folded : String) (candidates : List (MethodId × Method)) :
    List (MethodId × Method) :=
  candidates.filter fun (_, m) => Text.lower m.name == folded

/-- Where all methods of a small form are spelled alike, one of the two passes over the candidates
finds nothing and the other finds them all. -/
theorem best?_orElse_best? {candidates : List (MethodId × Method)} {name : String}
    (halike : ∀ a ∈ candidates, ∀ b ∈ candidates, Text.lower a.2.name = Text.lower name →
      Text.lower b.2.name = Text.lower name → a.2.name = b.2.name)
    (arguments : List TypeTag) :
    (best? (hits (candidates.filter fun (_, m) => m.name == name) arguments) <|>
      best? (hits (candidates.filter fun (_, m) =>
        m.name != name && Text.lower m.name == Text.lower name) arguments)) =
      best? (hits (sharing (Text.lower name) candidates) arguments) := by
  by_cases hspelled : ∃ a ∈ candidates, a.2.name = name
  · obtain ⟨a, ha, hname⟩ := hspelled
    have hsame : ∀ b ∈ candidates,
        (b.2.name == name) = (Text.lower b.2.name == Text.lower name) := by
      intro b hb
      rw [Bool.eq_iff_iff, beq_iff_eq, beq_iff_eq]
      refine ⟨congrArg Text.lower, fun hlower => ?_⟩
      exact (halike b hb a ha hlower (congrArg Text.lower hname)).trans hname
    have hnone : (candidates.filter fun b =>
        b.2.name != name && Text.lower b.2.name == Text.lower name) = [] := by
      rw [List.filter_eq_nil_iff]
      intro b hb
      rw [← hsame b hb]
      cases h : b.2.name == name <;> simp [bne, h]
    have hrest : best? (hits [] arguments) = none := rfl
    rw [List.filter_congr hsame, hnone, hrest, Option.orElse_apply, Option.orElse_eq_or,
      Option.or_none]
    rfl
  · have hnone : (candidates.filter fun b => b.2.name == name) = [] := by
      rw [List.filter_eq_nil_iff]
      intro b hb hname
      exact hspelled ⟨b, hb, eq_of_beq hname⟩
    have hall : (candidates.filter fun b =>
        b.2.name != name && Text.lower b.2.name == Text.lower name) =
        candidates.filter fun b => Text.lower b.2.name == Text.lower name := by
      apply List.filter_congr
      intro b hb
      have hne : (b.2.name != name) = true :=
        bne_iff_ne.mpr fun hname => hspelled ⟨b, hb, hname⟩
      rw [hne, Bool.true_and]
    rw [hnone, hall]
    rfl

theorem select?_eq_best? {r : Registry} (hr : r.Consistent) {typeName name : String}
    (hvariants : r.hasCaseVariants typeName (Text.lower name) = false)
    (arguments : List TypeTag) :
    r.select? typeName name arguments =
      best? (hits (sharing (Text.lower name)
        ((r.candidates typeName).filter fun (_, m) => m.arity == arguments.length))
        arguments) := by
  apply best?_orElse_best?
  intro a ha b hb hlower hlower'
  by_contra hname
  have htrue := (hr.variants typeName (Text.lower name)).mpr
    ⟨a, List.mem_of_mem_filter ha, b, List.mem_of_mem_filter hb, hname, hlower, hlower'⟩
  exact Bool.false_ne_true (hvariants.symm.trans htrue)

theorem select?_eq_of_callShape_eq {r : Registry} (hr : r.Consistent)
    {receiver receiver' : Value} {name name' : String} {arguments arguments' : List Value}
    (h : r.callShape receiver name arguments = r.callShape receiver' name' arguments') :
    r.select? receiver.typeName name (arguments.map Value.tag) =
      r.select? receiver'.typeName name' (arguments'.map Value.tag) := by
  simp only [callShape, CallShape.mk.injEq] at h
  obtain ⟨htype, hmethod, harguments⟩ := h
  rw [← htype] at hmethod ⊢
  rw [← harguments]
  cases hvariants : r.hasCaseVariants receiver.typeName (Text.lower name) with
  | true =>
      cases hvariants' : r.hasCaseVariants receiver.typeName (Text.lower name') with
      | true =>
          simp only [hvariants, hvariants', if_true] at hmethod
          rw [hmethod]
      | false =>
          simp only [hvariants, hvariants', if_true, Bool.false_eq_true, if_false] at hmethod
          rw [hmethod, Text.lower_lower, hvariants'] at hvariants
          exact nomatch hvariants
  | false =>
      cases hvariants' : r.hasCaseVariants receiver.typeName (Text.lower name') with
      | true =>
          simp only [hvariants, hvariants', if_true, Bool.false_eq_true, if_false] at hmethod
          rw [← hmethod, Text.lower_lower, hvariants] at hvariants'
          exact nomatch hvariants'
      | false =>
          simp only [hvariants, hvariants', Bool.false_eq_true, if_false] at hmethod
          rw [select?_eq_best? hr hvariants, select?_eq_best? hr hvariants', hmethod]

end Registry

structure Call where
  receiver : Value
  name : String
  arguments : List Value

namespace Call

def shape (r : Registry) (c : Call) : CallShape :=
  r.callShape c.receiver c.name c.arguments

def selected? (r : Registry) (c : Call) : Option Resolution :=
  r.select? c.receiver.typeName c.name (c.arguments.map Value.tag)

def cold (r : Registry) (c : Call) : Except MethodError Resolution :=
  match c.selected? r with
  | some resolution => .ok resolution
  | none =>
      .error (.notFound c.receiver.typeName c.name
        (argumentSignature (c.arguments.map Value.tag)))

theorem cold_of_selected? {r : Registry} {c : Call} {resolution : Resolution}
    (h : c.selected? r = some resolution) : c.cold r = .ok resolution := by
  simp only [cold, h]

end Call

/-- Each entry of the cache is what selection yields for every call of its shape. -/
def ResolutionCache.Sound (r : Registry) (cache : ResolutionCache) : Prop :=
  ∀ (c : Call) (resolution : Resolution),
    cache.peek? (c.shape r) = some resolution → c.selected? r = some resolution

namespace ResolutionCache.Sound

variable {r : Registry} {cache : ResolutionCache}

theorem empty (r : Registry) (capacity : Nat) (hpos : 0 < capacity) :
    Sound r (RecencyMap.empty capacity hpos) := by
  intro c resolution h
  rw [RecencyMap.peek?_empty] at h
  exact nomatch h

theorem get? (h : Sound r cache) (shape : CallShape) : Sound r (cache.get? shape).2 := by
  intro c resolution hpeek
  rw [RecencyMap.peek?_get?] at hpeek
  exact h c resolution hpeek

theorem put (hr : r.Consistent) (h : Sound r cache) {c : Call} {resolution : Resolution}
    (hselected : c.selected? r = some resolution) :
    Sound r (cache.put (c.shape r) resolution).2 := by
  intro c' resolution' hpeek
  rcases RecencyMap.peek?_of_peek?_put hpeek with ⟨hshape, rfl⟩ | hold
  · exact (Registry.select?_eq_of_callShape_eq hr hshape).trans hselected
  · exact h c' resolution' hold

end ResolutionCache.Sound

def ResolutionCache.remember (r : Registry) (cache : ResolutionCache) (c : Call) :
    ResolutionCache :=
  match c.selected? r with
  | some resolution => (cache.put (c.shape r) resolution).2
  | none => cache

theorem ResolutionCache.Sound.remember {r : Registry} (hr : r.Consistent)
    {cache : ResolutionCache} (h : Sound r cache) (c : Call) : Sound r (cache.remember r c) := by
  simp only [ResolutionCache.remember]
  split
  · rename_i hselected
    exact h.put hr hselected
  · exact h

namespace Registry

def resolveAll (r : Registry) (cache : ResolutionCache) :
    List Call → List (Except MethodError Resolution) × ResolutionCache
  | [] => ([], cache)
  | c :: rest =>
      let (result, cache) := r.resolve cache c.receiver c.name c.arguments
      let (results, cache) := r.resolveAll cache rest
      (result :: results, cache)

theorem resolve_eq (r : Registry) (cache : ResolutionCache) (c : Call) :
    r.resolve cache c.receiver c.name c.arguments =
      match cache.get? (c.shape r) with
      | (some resolution, cache) => (.ok resolution, cache)
      | (none, cache) => (c.cold r, ResolutionCache.remember r cache c) := by
  have hshape : r.callShape c.receiver c.name c.arguments = c.shape r := rfl
  have hselect : r.select? (c.shape r).typeName c.name (c.shape r).arguments = c.selected? r := rfl
  simp only [resolve, hshape, hselect]
  rcases cache.get? (c.shape r) with ⟨_ | resolution, cache⟩
  · simp only [Call.cold, ResolutionCache.remember]
    cases c.selected? r <;> rfl
  · rfl

theorem resolve_sound {r : Registry} (hr : r.Consistent) {cache : ResolutionCache}
    (h : cache.Sound r) (c : Call) :
    (r.resolve cache c.receiver c.name c.arguments).1 = c.cold r ∧
      ResolutionCache.Sound r (r.resolve cache c.receiver c.name c.arguments).2 := by
  have hfound := RecencyMap.get?_fst cache (c.shape r)
  have hkept := h.get? (c.shape r)
  rw [resolve_eq]
  split
  · rename_i resolution cache' hget
    rw [hget] at hfound hkept
    exact ⟨(Call.cold_of_selected? (h c resolution hfound.symm)).symm, hkept⟩
  · rename_i cache' hget
    rw [hget] at hkept
    exact ⟨rfl, hkept.remember hr c⟩

theorem resolveAll_eq_map_cold {r : Registry} (hr : r.Consistent) {cache : ResolutionCache}
    (h : cache.Sound r) (calls : List Call) :
    (r.resolveAll cache calls).1 = calls.map (Call.cold r) := by
  induction calls generalizing cache with
  | nil => rfl
  | cons c rest ih =>
      obtain ⟨hanswer, hkept⟩ := resolve_sound hr h c
      simp only [resolveAll, List.map_cons, hanswer, ih hkept]

end Registry

/-! Holders of one cache. A holder visits the cache to look a call up; when it finds nothing it
selects a method and visits the cache again to bind the resolution, and other holders may have
visited it in between. -/

/-- A cache, and the call that each of its holders has looked up in vain. -/
structure Shared where
  cache : ResolutionCache
  missed : List (Nat × Call)

inductive Visit where
  | lookUp (holder : Nat) (call : Call)
  | bind (holder : Nat)

structure Answer where
  call : Call
  result : Except MethodError Resolution

namespace Shared

def start (capacity : Nat) (hpos : 0 < capacity) : Shared :=
  { cache := .empty capacity hpos, missed := [] }

/-- A visit, with the answer that it settles. A holder begins no call before it has bound the one
that it looked up in vain. -/
def visit (r : Registry) (s : Shared) : Visit → Option Answer × Shared
  | .lookUp holder call =>
      match s.missed.lookup holder with
      | some _ => (none, s)
      | none =>
          match s.cache.get? (call.shape r) with
          | (some resolution, cache) => (some ⟨call, .ok resolution⟩, { s with cache })
          | (none, cache) => (none, { cache, missed := (holder, call) :: s.missed })
  | .bind holder =>
      match s.missed.lookup holder with
      | none => (none, s)
      | some call =>
          (some ⟨call, call.cold r⟩, {
            cache := s.cache.remember r call
            missed := s.missed.filter (·.1 != holder) })

def answers (r : Registry) (s : Shared) : List Visit → List Answer
  | [] => []
  | v :: rest =>
      let (answer, s) := s.visit r v
      answer.toList ++ s.answers r rest

/-- A holder that nobody disturbs between its visits resolves its call. -/
theorem answers_undisturbed (r : Registry) {s : Shared} {holder : Nat}
    (hidle : s.missed.lookup holder = none) (c : Call) :
    s.answers r [.lookUp holder c, .bind holder] =
      [⟨c, (r.resolve s.cache c.receiver c.name c.arguments).1⟩] := by
  rw [Registry.resolve_eq]
  cases hget : s.cache.get? (c.shape r) with
  | mk found cache =>
      cases found with
      | some resolution => simp [answers, visit, hidle, hget]
      | none => simp [answers, visit, hidle, hget]

theorem visit_sound {r : Registry} (hr : r.Consistent) {s : Shared} (h : s.cache.Sound r)
    (v : Visit) :
    (∀ answer ∈ (s.visit r v).1, answer.result = answer.call.cold r) ∧
      ResolutionCache.Sound r (s.visit r v).2.cache := by
  cases v with
  | lookUp holder call =>
      have hfound := RecencyMap.get?_fst s.cache (call.shape r)
      have hkept := h.get? (call.shape r)
      simp only [visit]
      split
      · exact ⟨fun _ hnone => (nomatch hnone), h⟩
      · split
        · rename_i resolution cache hget
          rw [hget] at hfound hkept
          refine ⟨?_, hkept⟩
          rintro answer ⟨⟩
          exact (Call.cold_of_selected? (h call resolution hfound.symm)).symm
        · rename_i cache hget
          rw [hget] at hkept
          exact ⟨fun _ hnone => (nomatch hnone), hkept⟩
  | bind holder =>
      simp only [visit]
      split
      · exact ⟨fun _ hnone => (nomatch hnone), h⟩
      · refine ⟨?_, h.remember hr _⟩
        rintro answer ⟨⟩
        rfl

theorem result_of_mem_answers {r : Registry} (hr : r.Consistent) {s : Shared}
    (h : s.cache.Sound r) {visits : List Visit} {answer : Answer}
    (hmem : answer ∈ s.answers r visits) : answer.result = answer.call.cold r := by
  induction visits generalizing s with
  | nil => exact nomatch hmem
  | cons v rest ih =>
      obtain ⟨hanswer, hkept⟩ := visit_sound hr h v
      simp only [answers, List.mem_append, Option.mem_toList] at hmem
      rcases hmem with hmem | hmem
      · exact hanswer answer hmem
      · exact ih hkept hmem

end Shared

/-- Whatever the cache has seen, a call resolves as it would with nothing remembered: when the calls
come one after the other, when the visits of any number of holders interleave, and when it finds
the entry of another spelling. -/
theorem resolution_transparent (methods : List Method) (capacity : Nat) (hpos : 0 < capacity) :
    (∀ calls : List Call,
      ((Registry.empty.defineAll methods).resolveAll (.empty capacity hpos) calls).1 =
        calls.map (Call.cold (Registry.empty.defineAll methods))) ∧
    (∀ visits : List Visit,
      ∀ answer ∈ (Shared.start capacity hpos).answers (Registry.empty.defineAll methods) visits,
        answer.result = answer.call.cold (Registry.empty.defineAll methods)) ∧
    ∀ c c' : Call,
      c.shape (Registry.empty.defineAll methods) = c'.shape (Registry.empty.defineAll methods) →
        c.selected? (Registry.empty.defineAll methods) =
          c'.selected? (Registry.empty.defineAll methods) := by
  have hr := Registry.consistent_defineAll methods
  have hempty := ResolutionCache.Sound.empty (Registry.empty.defineAll methods) capacity hpos
  refine ⟨Registry.resolveAll_eq_map_cold hr hempty, ?_, ?_⟩
  · intro visits answer hmem
    exact Shared.result_of_mem_answers hr hempty hmem
  · intro c c' hshape
    exact Registry.select?_eq_of_callShape_eq hr hshape

def respelledMethods : List Method :=
  [Builtin.onText "Peek" [] fun s _ => return .text s,
    Builtin.onText "peek" [.any] fun _ arguments => return .list arguments,
    Builtin.onText "peek" [] fun s _ => return .text (Text.lower s)]

/-- With room for one entry, spellings that select different methods keep evicting each other. -/
theorem resolution_transparent_respelled :
    0 < 1 ∧
    ((Registry.empty.defineAll respelledMethods).resolveAll (.empty 1 Nat.one_pos)
      [⟨.text "a", "Peek", []⟩, ⟨.text "b", "peek", []⟩, ⟨.text "c", "Peek", []⟩,
        ⟨.text "d", "PEEK", []⟩, ⟨.text "e", "Poke", []⟩]).1 =
      [.ok ⟨⟨0⟩, []⟩, .ok ⟨⟨2⟩, []⟩, .ok ⟨⟨0⟩, []⟩, .ok ⟨⟨0⟩, []⟩,
        .error (.notFound "String" "Poke" "()")] := by
  refine ⟨Nat.one_pos, ?_⟩
  rw [(resolution_transparent respelledMethods 1 Nat.one_pos).1]
  decide

end Stencil
