import Mathlib.Data.Prod.Lex
import Stencil.Proofs.Resolution

/-! The ranks of overloads. A name spelled as in the call comes before one that differs in letter
case, then exact parameters come before compatible ones, and then the order of declaration decides.
Of all methods that serve a call the one of the least rank is selected. -/

namespace Stencil

namespace Parameter

/-- The arguments that a parameter accepts, by their tags, with the coercions planned for them. -/
inductive Accepts : Parameter → TypeTag → Coercion → Prop where
  | any (tag : TypeTag) : Accepts .any tag .identity
  | same (tag : TypeTag) : Accepts (.exactly tag) tag .identity
  | widened {tag target : TypeTag} (hne : target ≠ tag) (h : tag.widensTo target = true) :
      Accepts (.exactly target) tag (.widen target)
  | character : Accepts (.exactly .text) .char .stringify
  | null {target : TypeTag} (h : target.acceptsNull = true) :
      Accepts (.exactly target) .null .identity

theorem accepts_of_fit? {parameter : Parameter} {tag : TypeTag} {fit : Fit} {coercion : Coercion}
    (h : parameter.fit? tag = some (fit, coercion)) :
    parameter.Accepts tag coercion ∧ (fit = .exact ↔ parameter = .exactly tag) := by
  cases parameter with
  | any =>
      cases h
      exact ⟨.any tag, nofun, nofun⟩
  | exactly target =>
      simp only [fit?] at h
      split at h
      · rename_i hsame
        cases h
        subst hsame
        exact ⟨.same target, fun _ => rfl, fun _ => rfl⟩
      rename_i hne
      have hcompatible : Fit.compatible = .exact ↔ Parameter.exactly target = .exactly tag :=
        ⟨nofun, fun heq => absurd (exactly.inj heq) hne⟩
      split at h
      · rename_i hwidens
        cases h
        exact ⟨.widened hne hwidens, hcompatible⟩
      split at h
      · rename_i hcharacter
        cases h
        obtain ⟨rfl, rfl⟩ := hcharacter
        exact ⟨.character, hcompatible⟩
      split at h
      · rename_i hnull
        cases h
        obtain ⟨rfl, haccepts⟩ := hnull
        exact ⟨.null haccepts, hcompatible⟩
      · cases h

theorem Accepts.exists_fit? {parameter : Parameter} {tag : TypeTag} {coercion : Coercion}
    (h : parameter.Accepts tag coercion) : ∃ fit, parameter.fit? tag = some (fit, coercion) := by
  cases h with
  | any => exact ⟨.compatible, rfl⟩
  | same => exact ⟨.exact, if_pos rfl⟩
  | widened hne hwidens =>
      refine ⟨.compatible, ?_⟩
      rw [fit?, if_neg hne, if_pos hwidens]
  | character => exact ⟨.compatible, rfl⟩
  | @null target haccepts =>
      refine ⟨.compatible, ?_⟩
      cases target with
      | text | list | map => rfl
      | object name => rfl
      | _ => cases haccepts

/-- One argument for each parameter, accepted with the coercion at its place in the plan. -/
inductive AcceptAll : List Parameter → List TypeTag → List Coercion → Prop where
  | nil : AcceptAll [] [] []
  | cons {parameter : Parameter} {tag : TypeTag} {coercion : Coercion}
      {parameters : List Parameter} {tags : List TypeTag} {plan : List Coercion}
      (hfirst : parameter.Accepts tag coercion) (hrest : AcceptAll parameters tags plan) :
      AcceptAll (parameter :: parameters) (tag :: tags) (coercion :: plan)

theorem AcceptAll.length_eq {parameters : List Parameter} {tags : List TypeTag}
    {plan : List Coercion} (h : AcceptAll parameters tags plan) :
    parameters.length = tags.length := by
  induction h with
  | nil => rfl
  | cons _ _ ih => exact congrArg Nat.succ ih

theorem acceptAll_of_fitAll? {parameters : List Parameter} {tags : List TypeTag} {fit : Fit}
    {plan : List Coercion} (hlength : parameters.length = tags.length)
    (h : fitAll? parameters tags = some (fit, plan)) :
    AcceptAll parameters tags plan ∧ (fit = .exact ↔ parameters = tags.map .exactly) := by
  induction parameters generalizing tags fit plan with
  | nil =>
      cases tags with
      | nil =>
          cases h
          exact ⟨.nil, fun _ => rfl, fun _ => rfl⟩
      | cons tag tags => cases hlength
  | cons parameter parameters ih =>
      cases tags with
      | nil => cases hlength
      | cons tag tags =>
          simp only [fitAll?, Option.bind_eq_bind, Option.bind_eq_some_iff, Prod.exists] at h
          obtain ⟨first, coercion, hfirst, others, plan', hothers, heq⟩ := h
          cases heq
          obtain ⟨haccepts, hexact⟩ := accepts_of_fit? hfirst
          obtain ⟨hrest, hall⟩ := ih (Nat.succ.inj hlength) hothers
          refine ⟨.cons haccepts hrest, ?_⟩
          rw [List.map_cons, List.cons.injEq, ← hexact, ← hall]
          cases first with
          | exact => exact ⟨fun h => ⟨rfl, h⟩, And.right⟩
          | compatible => exact ⟨nofun, fun h => h.1⟩

theorem AcceptAll.exists_fitAll? {parameters : List Parameter} {tags : List TypeTag}
    {plan : List Coercion} (h : AcceptAll parameters tags plan) :
    ∃ fit, fitAll? parameters tags = some (fit, plan) := by
  induction h with
  | nil => exact ⟨.exact, rfl⟩
  | cons hfirst _ ih =>
      obtain ⟨first, hfit⟩ := hfirst.exists_fit?
      obtain ⟨others, hothers⟩ := ih
      exact ⟨first.join others, by simp only [fitAll?, hfit, hothers]; rfl⟩

end Parameter

namespace Registry

theorem mem_hits_iff {candidates : List (MethodId × Method)} {tags : List TypeTag} {hit : Hit} :
    hit ∈ hits candidates tags ↔
      ∃ m, (hit.id, m) ∈ candidates ∧
        Parameter.fitAll? m.parameters tags = some (hit.fit, hit.coercions) := by
  rw [hits, List.mem_filterMap]
  constructor
  · rintro ⟨⟨id, m⟩, hmem, hmap⟩
    obtain ⟨⟨fit, coercions⟩, hfit, rfl⟩ := Option.map_eq_some_iff.mp hmap
    exact ⟨m, hmem, hfit⟩
  · rintro ⟨m, hmem, hfit⟩
    exact ⟨_, hmem, Option.map_eq_some_iff.mpr ⟨_, hfit, rfl⟩⟩

theorem pairwise_hits {candidates : List (MethodId × Method)}
    (h : candidates.Pairwise (·.1.index < ·.1.index)) (tags : List TypeTag) :
    (hits candidates tags).Pairwise (·.id.index < ·.id.index) := by
  refine h.filterMap _ ?_
  rintro ⟨id, m⟩ ⟨id', m'⟩ hlt hit hhit hit' hhit'
  obtain ⟨_, -, rfl⟩ := Option.map_eq_some_iff.mp hhit
  obtain ⟨_, -, rfl⟩ := Option.map_eq_some_iff.mp hhit'
  exact hlt

theorem le_of_find? {found : List Hit} (h : found.Pairwise (·.id.index < ·.id.index))
    {p : Hit → Bool} {hit : Hit} (hfind : found.find? p = some hit) :
    ∀ other ∈ found, p other = true → hit.id.index ≤ other.id.index := by
  induction h with
  | nil => cases hfind
  | @cons first rest hlt _ ih =>
      rw [List.find?_cons] at hfind
      intro other hmem hother
      split at hfind
      · cases hfind
        rcases List.mem_cons.mp hmem with rfl | hrest
        · exact Nat.le_refl _
        · exact Nat.le_of_lt (hlt other hrest)
      · rename_i hfirst
        rcases List.mem_cons.mp hmem with rfl | hrest
        · exact absurd (hother.symm.trans hfirst) nofun
        · exact ih hfind other hrest hother

def Hit.rank (hit : Hit) : Bool ×ₗ Nat :=
  toLex (hit.fit != .exact, hit.id.index)

theorem Hit.fit_eq_of_rank_eq {hit hit' : Hit} (h : hit.rank = hit'.rank) :
    hit.fit = hit'.fit := by
  have hfit : (hit.fit != .exact) = (hit'.fit != .exact) := (Prod.mk.inj (toLex_inj.mp h)).1
  cases hfirst : hit.fit <;> cases hsecond : hit'.fit <;> simp [hfirst, hsecond] at hfit ⊢

theorem exists_least_of_best? {found : List Hit}
    (h : found.Pairwise (·.id.index < ·.id.index)) {resolution : Resolution}
    (hbest : best? found = some resolution) :
    ∃ hit ∈ found, resolution = ⟨hit.id, hit.coercions⟩ ∧
      ∀ other ∈ found, hit.rank ≤ other.rank := by
  obtain ⟨hit, hhit, rfl⟩ := Option.map_eq_some_iff.mp hbest
  rw [Option.orElse_apply, Option.orElse_eq_or, Option.or_eq_some_iff] at hhit
  rcases hhit with hexact | ⟨hnone, hhead⟩
  · refine ⟨hit, List.mem_of_find?_eq_some hexact, rfl, fun other hother => ?_⟩
    have hfit := List.find?_some (p := fun hit : Hit => hit.fit == .exact) hexact
    rw [Hit.rank, Hit.rank, eq_of_beq hfit, Prod.Lex.toLex_le_toLex]
    cases hcompare : other.fit with
    | exact => exact .inr ⟨rfl, le_of_find? h hexact other hother (beq_iff_eq.mpr hcompare)⟩
    | compatible => exact .inl Bool.false_lt_true
  · refine ⟨hit, List.mem_of_head? hhead, rfl, fun other hother => ?_⟩
    have hcompatible : ∀ other ∈ found, (other.fit != .exact) = true := by
      intro other hother
      simpa using List.find?_eq_none.mp hnone other hother
    rw [Hit.rank, Hit.rank, hcompatible _ hother, hcompatible _ (List.mem_of_head? hhead),
      Prod.Lex.toLex_le_toLex]
    refine .inr ⟨rfl, ?_⟩
    have hfirst : found.find? (fun _ => true) = some hit := by
      rw [← hhead]
      cases found <;> rfl
    exact le_of_find? h hfirst other hother rfl

theorem best?_eq_none_iff {found : List Hit} : best? found = none ↔ found = [] := by
  cases found with
  | nil => exact ⟨fun _ => rfl, fun _ => rfl⟩
  | cons hit rest =>
      refine ⟨fun hnone => ?_, nofun⟩
      rw [best?, Option.map_eq_none_iff, Option.orElse_apply, Option.orElse_eq_or,
        Option.or_eq_none_iff] at hnone
      exact nomatch hnone.2

end Registry

namespace Call

/-- The method declared at a place serves the call: it belongs to the type of the receiver, has the
name up to letter case, and its parameters accept the arguments, with a plan. -/
structure ServedBy (c : Call) (methods : List Method) (index : Nat) (m : Method)
    (plan : List Coercion) : Prop where
  declared : methods[index]? = some m
  receiver : m.typeName = c.receiver.typeName
  name : Text.lower m.name = Text.lower c.name
  accepts : Parameter.AcceptAll m.parameters (c.arguments.map Value.tag) plan

/-- Another spelling comes after the spelling of the call, then compatible parameters come after
exact ones, and then later declarations after earlier ones. -/
def rank (c : Call) (index : Nat) (m : Method) : Bool ×ₗ Bool ×ₗ Nat :=
  toLex (m.name != c.name,
    toLex (m.parameters != (c.arguments.map Value.tag).map .exactly, index))

def hits (r : Registry) (c : Call) (respelled : Bool) : List Registry.Hit :=
  Registry.hits
    (((r.candidates c.receiver.typeName).filter fun (_, m) => m.arity == c.arguments.length).filter
      fun (_, m) => (m.name != c.name) == respelled && Text.lower m.name == Text.lower c.name)
    (c.arguments.map Value.tag)

theorem selected?_eq_orElse (r : Registry) (c : Call) :
    c.selected? r = (Registry.best? (c.hits r false) <|> Registry.best? (c.hits r true)) := by
  simp only [selected?, Registry.select?, hits, List.length_map]
  congr 3
  · apply List.filter_congr
    rintro ⟨id, m⟩ -
    by_cases hname : m.name = c.name
    · simp [hname]
    · rw [beq_eq_false_iff_ne.mpr hname, bne_iff_ne.mpr hname]
      rfl
  · funext _
    congr 3
    funext candidate
    rw [beq_true]

variable {methods : List Method} {c : Call} {respelled : Bool}

theorem rank_eq_of_fitAll? {index : Nat} {m : Method} {fit : Fit} {plan : List Coercion}
    (hlength : m.parameters.length = (c.arguments.map Value.tag).length)
    (hfit : Parameter.fitAll? m.parameters (c.arguments.map Value.tag) = some (fit, plan)) :
    c.rank index m = toLex (m.name != c.name, Registry.Hit.rank ⟨⟨index⟩, fit, plan⟩) := by
  obtain ⟨-, hexact⟩ := Parameter.acceptAll_of_fitAll? hlength hfit
  have hkind : (m.parameters != (c.arguments.map Value.tag).map .exactly) = (fit != .exact) := by
    rw [Bool.eq_iff_iff, bne_iff_ne, bne_iff_ne]
    exact not_congr hexact.symm
  rw [rank, hkind]
  rfl

theorem mem_hits_iff {hit : Registry.Hit} :
    hit ∈ c.hits (Registry.empty.defineAll methods) respelled ↔
      ∃ m, c.ServedBy methods hit.id.index m hit.coercions ∧
        c.rank hit.id.index m = toLex (respelled, hit.rank) := by
  rw [hits, Registry.mem_hits_iff]
  refine exists_congr fun m => ?_
  simp only [List.mem_filter, Registry.mem_candidates_iff, Bool.and_eq_true, beq_iff_eq]
  constructor
  · rintro ⟨⟨⟨⟨hdeclared, hreceiver⟩, harity⟩, hspelling, hname⟩, hfit⟩
    have hlength : m.parameters.length = (c.arguments.map Value.tag).length :=
      harity.trans (List.length_map ..).symm
    obtain ⟨haccepts, -⟩ := Parameter.acceptAll_of_fitAll? hlength hfit
    refine ⟨⟨hdeclared, hreceiver, hname, haccepts⟩, ?_⟩
    rw [rank_eq_of_fitAll? hlength hfit, hspelling]
  · rintro ⟨⟨hdeclared, hreceiver, hname, haccepts⟩, hrank⟩
    have hlength := haccepts.length_eq
    obtain ⟨fit, hfit⟩ := haccepts.exists_fitAll?
    rw [rank_eq_of_fitAll? hlength hfit] at hrank
    obtain ⟨hspelling, hhit⟩ := Prod.mk.inj (toLex_inj.mp hrank)
    have hsame : fit = hit.fit := Registry.Hit.fit_eq_of_rank_eq hhit
    rw [List.length_map] at hlength
    exact ⟨⟨⟨⟨hdeclared, hreceiver⟩, hlength⟩, hspelling, hname⟩, hsame ▸ hfit⟩

theorem ServedBy.eq {index : Nat} {m m' : Method} {plan plan' : List Coercion}
    (h : c.ServedBy methods index m plan) (h' : c.ServedBy methods index m' plan') :
    m = m' ∧ plan = plan' := by
  obtain rfl : m = m' := Option.some.inj (h.declared.symm.trans h'.declared)
  obtain ⟨fit, hfit⟩ := h.accepts.exists_fitAll?
  obtain ⟨fit', hfit'⟩ := h'.accepts.exists_fitAll?
  exact ⟨rfl, (Prod.mk.inj (Option.some.inj (hfit.symm.trans hfit'))).2⟩

theorem rank_index {index index' : Nat} {m m' : Method}
    (h : c.rank index m = c.rank index' m') : index = index' :=
  (Prod.mk.inj (toLex_inj.mp (Prod.mk.inj (toLex_inj.mp h)).2)).2

theorem pairwise_hits (methods : List Method) (c : Call) (respelled : Bool) :
    (c.hits (Registry.empty.defineAll methods) respelled).Pairwise
      (·.id.index < ·.id.index) :=
  Registry.pairwise_hits (((Registry.pairwise_candidates methods _).filter _).filter _) _

theorem ServedBy.exists_hit {index : Nat} {m : Method} {plan : List Coercion}
    (h : c.ServedBy methods index m plan) :
    ∃ respelled, ∃ hit ∈ c.hits (Registry.empty.defineAll methods) respelled,
      hit.id.index = index ∧ hit.coercions = plan ∧
        c.rank index m = toLex (respelled, hit.rank) := by
  obtain ⟨fit, hfit⟩ := h.accepts.exists_fitAll?
  have hrank : c.rank index m = _ := rank_eq_of_fitAll? h.accepts.length_eq hfit
  exact ⟨_, ⟨⟨index⟩, fit, plan⟩, mem_hits_iff.mpr ⟨m, h, hrank⟩, rfl, rfl, hrank⟩

/-- No method that serves the call comes before this one. -/
def LeastServedBy (c : Call) (methods : List Method) (index : Nat) (m : Method)
    (plan : List Coercion) : Prop :=
  c.ServedBy methods index m plan ∧
    ∀ index' m' plan', c.ServedBy methods index' m' plan' → c.rank index m ≤ c.rank index' m'

theorem LeastServedBy.eq {index index' : Nat} {m m' : Method} {plan plan' : List Coercion}
    (h : c.LeastServedBy methods index m plan) (h' : c.LeastServedBy methods index' m' plan') :
    index = index' ∧ plan = plan' := by
  obtain rfl : index = index' :=
    rank_index (le_antisymm (h.2 _ _ _ h'.1) (h'.2 _ _ _ h.1))
  exact ⟨rfl, (h.1.eq h'.1).2⟩

/-- The best of the hits of one kind of spelling is the least of all, unless the call finds hits of
its own spelling and these are others. -/
theorem leastServedBy_of_best? {resolution : Resolution}
    (hbest : Registry.best? (c.hits (Registry.empty.defineAll methods) respelled) =
      some resolution)
    (hspelled : respelled = true → c.hits (Registry.empty.defineAll methods) false = []) :
    ∃ m, c.LeastServedBy methods resolution.method.index m resolution.coercions := by
  obtain ⟨hit, hmem, rfl, hleast⟩ :=
    Registry.exists_least_of_best? (pairwise_hits methods c respelled) hbest
  obtain ⟨m, hserved, hrank⟩ := mem_hits_iff.mp hmem
  refine ⟨m, hserved, fun index' m' plan' hserved' => ?_⟩
  obtain ⟨respelled', hit', hmem', -, -, hrank'⟩ := hserved'.exists_hit
  rw [hrank, hrank', Prod.Lex.toLex_le_toLex]
  cases respelled with
  | true =>
      cases respelled' with
      | true => exact .inr ⟨rfl, hleast hit' hmem'⟩
      | false =>
          rw [hspelled rfl] at hmem'
          cases hmem'
  | false =>
      cases respelled' with
      | true => exact .inl Bool.false_lt_true
      | false => exact .inr ⟨rfl, hleast hit' hmem'⟩

theorem leastServedBy_of_selected? {resolution : Resolution}
    (h : c.selected? (Registry.empty.defineAll methods) = some resolution) :
    ∃ m, c.LeastServedBy methods resolution.method.index m resolution.coercions := by
  rw [selected?_eq_orElse, Option.orElse_eq_orElse, Option.orElse_eq_or,
    Option.or_eq_some_iff] at h
  rcases h with hspelled | ⟨hnone, hrespelled⟩
  · exact leastServedBy_of_best? hspelled nofun
  · exact leastServedBy_of_best? hrespelled fun _ => Registry.best?_eq_none_iff.mp hnone

theorem selected?_eq_none_iff :
    c.selected? (Registry.empty.defineAll methods) = none ↔
      ∀ index m plan, ¬ c.ServedBy methods index m plan := by
  constructor
  · intro hnone index m plan hserved
    obtain ⟨respelled, hit, hmem, -⟩ := hserved.exists_hit
    rw [selected?_eq_orElse, Option.orElse_eq_orElse, Option.orElse_eq_or,
      Option.or_eq_none_iff] at hnone
    cases respelled with
    | false => exact absurd hmem (Registry.best?_eq_none_iff.mp hnone.1 ▸ List.not_mem_nil)
    | true => exact absurd hmem (Registry.best?_eq_none_iff.mp hnone.2 ▸ List.not_mem_nil)
  · intro hunserved
    rw [Option.eq_none_iff_forall_ne_some]
    intro resolution hselected
    obtain ⟨m, hserved, -⟩ := leastServedBy_of_selected? hselected
    exact hunserved _ _ _ hserved

theorem selected?_eq_some_iff {index : Nat} {plan : List Coercion} :
    c.selected? (Registry.empty.defineAll methods) = some ⟨⟨index⟩, plan⟩ ↔
      ∃ m, c.LeastServedBy methods index m plan := by
  refine ⟨leastServedBy_of_selected?, ?_⟩
  rintro ⟨m, hleast⟩
  cases hselected : c.selected? (Registry.empty.defineAll methods) with
  | none => exact absurd hleast.1 (selected?_eq_none_iff.mp hselected index m plan)
  | some resolution =>
      obtain ⟨m', hleast'⟩ := leastServedBy_of_selected? hselected
      obtain ⟨rfl, rfl⟩ := hleast.eq hleast'
      rfl

end Call

theorem Registry.resolve_of_isEmpty (r : Registry) {cache : ResolutionCache}
    (hempty : cache.isEmpty = true) (c : Call) :
    r.resolve cache c.receiver c.name c.arguments =
      (c.cold r, ResolutionCache.remember r cache c) := by
  rw [resolve_eq, RecencyMap.get?_of_isEmpty hempty]

/-- With nothing remembered a call resolves to the method of the least rank among those that serve
it. Where none serves it no method is found, and nothing gets remembered. -/
theorem resolve_least_rank (methods : List Method) (c : Call) (cache : ResolutionCache)
    (hempty : cache.isEmpty = true) :
    let resolved :=
      (Registry.empty.defineAll methods).resolve cache c.receiver c.name c.arguments
    (∀ index plan, resolved.1 = .ok ⟨⟨index⟩, plan⟩ ↔ ∃ m, c.LeastServedBy methods index m plan) ∧
    ∀ error cache', resolved = (.error error, cache') ↔
      (error = .notFound c.receiver.typeName c.name
        (argumentSignature (c.arguments.map Value.tag)) ∧ cache' = cache) ∧
      ∀ index m plan, ¬ c.ServedBy methods index m plan := by
  intro resolved
  have hresolved : resolved = (c.cold (Registry.empty.defineAll methods),
      ResolutionCache.remember (Registry.empty.defineAll methods) cache c) :=
    Registry.resolve_of_isEmpty _ hempty c
  rw [hresolved]
  simp only [Call.cold, ResolutionCache.remember, ← Call.selected?_eq_some_iff,
    ← Call.selected?_eq_none_iff]
  cases c.selected? (Registry.empty.defineAll methods) with
  | none => simp [eq_comm]
  | some resolution => simp

def overloads : List Method :=
  [Builtin.onText "Pick" [.exactly .char] fun s _ => return .text s,
    Builtin.onText "pick" [.any] fun _ arguments => return .list arguments,
    Builtin.onText "pick" [.exactly .text] fun s _ => return .text (Text.lower s),
    Builtin.onText "pick" [.exactly .char, .any] fun _ arguments => return .list arguments]

/-- Another spelling loses with exact parameters, and a text loses when it comes after anything. -/
theorem resolve_least_rank_overloads :
    (RecencyMap.empty 1 Nat.one_pos : ResolutionCache).isEmpty = true ∧
    (∃ m, Call.LeastServedBy ⟨.text "a", "pick", [.char 'b']⟩ overloads 1 m [.identity]) ∧
    (∃ m, Call.LeastServedBy ⟨.text "a", "Pick", [.char 'b']⟩ overloads 0 m [.identity]) ∧
    ∀ index m plan, ¬ Call.ServedBy ⟨.text "a", "pick", []⟩ overloads index m plan := by
  have hempty : (RecencyMap.empty 1 Nat.one_pos : ResolutionCache).isEmpty = true := rfl
  refine ⟨hempty, ?_, ?_, ?_⟩
  · refine ((resolve_least_rank overloads _ _ hempty).1 1 [.identity]).mp ?_
    rw [Registry.resolve_of_isEmpty _ hempty]
    decide
  · refine ((resolve_least_rank overloads _ _ hempty).1 0 [.identity]).mp ?_
    rw [Registry.resolve_of_isEmpty _ hempty]
    decide
  · refine (((resolve_least_rank overloads _ _ hempty).2
      (.notFound "String" "pick" "()") (.empty 1 Nat.one_pos)).mp ?_).2
    rw [Registry.resolve_of_isEmpty _ hempty]
    rfl

def DeclaredAt (methods : List Method) (index : Nat) (typeName spelling : String)
    (parameter : Parameter) : Prop :=
  ∃ m : Method, methods[index]? = some m ∧ m.typeName = typeName ∧ m.name = spelling ∧
    m.parameters = [parameter]

/-- At two places, and nowhere else, the type declares a method of one parameter under the name;
the name is spelled alike at both. -/
structure Rivals (methods : List Method) (typeName spelling : String) (place place' : Nat)
    (parameter parameter' : Parameter) : Prop where
  one : DeclaredAt methods place typeName spelling parameter
  other : DeclaredAt methods place' typeName spelling parameter'
  only : ∀ (index : Nat) (m : Method), methods[index]? = some m → m.typeName = typeName →
    Text.lower m.name = Text.lower spelling → m.arity = 1 → index = place ∨ index = place'

namespace Rivals

variable {methods : List Method} {typeName spelling : String} {place place' : Nat}
  {parameter parameter' : Parameter}

theorem symm (h : Rivals methods typeName spelling place place' parameter parameter') :
    Rivals methods typeName spelling place' place parameter' parameter where
  one := h.other
  other := h.one
  only index m hdeclared htype hname harity := (h.only index m hdeclared htype hname harity).symm

theorem leastServedBy (h : Rivals methods typeName spelling place place' parameter parameter')
    (hlt : place < place') {receiver argument : Value} {name : String} {coercion : Coercion}
    (hreceiver : receiver.typeName = typeName) (hname : Text.lower name = Text.lower spelling)
    (haccepts : parameter.Accepts argument.tag coercion)
    (hinexact : parameter' ≠ .exactly argument.tag) :
    ∃ m, Call.LeastServedBy ⟨receiver, name, [argument]⟩ methods place m [coercion] := by
  obtain ⟨m, hdeclared, htype, hspelling, hparameters⟩ := h.one
  obtain ⟨m', hdeclared', -, hspelling', hparameters'⟩ := h.other
  have hserved : Call.ServedBy ⟨receiver, name, [argument]⟩ methods place m [coercion] := by
    refine ⟨hdeclared, htype.trans hreceiver.symm, hspelling ▸ hname.symm, ?_⟩
    rw [hparameters]
    exact .cons haccepts .nil
  refine ⟨m, hserved, fun index m'' plan hserved' => ?_⟩
  have hplace : index = place ∨ index = place' := by
    refine h.only index m'' hserved'.declared (hserved'.receiver.trans hreceiver) ?_ ?_
    · exact hserved'.name.trans hname
    · exact hserved'.accepts.length_eq
  rcases hplace with rfl | rfl
  · obtain ⟨rfl, -⟩ := hserved.eq hserved'
    exact le_rfl
  · obtain rfl : m' = m'' := Option.some.inj (hdeclared'.symm.trans hserved'.declared)
    have hkind : (m'.parameters != ([argument].map Value.tag).map .exactly) = true := by
      rw [bne_iff_ne, hparameters']
      exact fun heq => hinexact (List.cons.inj heq).1
    rw [Call.rank, Call.rank, hspelling, hspelling', hkind, Prod.Lex.toLex_le_toLex,
      Prod.Lex.toLex_le_toLex]
    refine .inr ⟨rfl, ?_⟩
    rcases Bool.eq_false_or_eq_true
      (m.parameters != ([argument].map Value.tag).map .exactly) with hm | hm
    · exact .inr ⟨hm, hlt.le⟩
    · exact .inl (hm ▸ Bool.false_lt_true)

end Rivals

theorem Registry.resolve_of_leastServedBy {methods : List Method} {c : Call} {index : Nat}
    {plan : List Coercion} {cache : ResolutionCache}
    (hcache : cache.Sound (empty.defineAll methods))
    (h : ∃ m, c.LeastServedBy methods index m plan) :
    ((empty.defineAll methods).resolve cache c.receiver c.name c.arguments).1 =
      .ok ⟨⟨index⟩, plan⟩ :=
  (resolve_sound (consistent_defineAll methods) hcache c).1.trans
    (Call.cold_of_selected? (Call.selected?_eq_some_iff.mpr h))

/-- Of a method that widens an integer to a double and a method that takes anything, both of one
spelling, a call with an integer selects the one that is declared first, however the call spells
the name and whatever the cache remembers. -/
theorem resolve_double_or_any {methods : List Method} {typeName spelling : String}
    {double any : Nat} (h : Rivals methods typeName spelling double any (.exactly .double) .any)
    {cache : ResolutionCache} (hcache : cache.Sound (Registry.empty.defineAll methods))
    {receiver : Value} (hreceiver : receiver.typeName = typeName) {name : String}
    (hname : Text.lower name = Text.lower spelling) (kind : IntegerKind) (v : Int)
    (hv : kind.Holds v) :
    let resolved := ((Registry.empty.defineAll methods).resolve cache receiver name
      [.number (.integer kind v hv)]).1
    (double < any → resolved = .ok ⟨⟨double⟩, [.widen .double]⟩) ∧
      (any < double → resolved = .ok ⟨⟨any⟩, [.identity]⟩) := by
  refine ⟨fun hlt => ?_, fun hlt => ?_⟩
  · refine Registry.resolve_of_leastServedBy (c := ⟨receiver, name, _⟩) hcache ?_
    exact h.leastServedBy hlt hreceiver hname (.widened nofun rfl) nofun
  · refine Registry.resolve_of_leastServedBy (c := ⟨receiver, name, _⟩) hcache ?_
    exact h.symm.leastServedBy hlt hreceiver hname (.any _) nofun

def namedF (parameter : Parameter) : Method :=
  { typeName := "A", name := "f", parameters := [parameter]
    action := fun _ arguments => .ok (.list arguments) }

def namedG : Method :=
  { namedF .any with name := "g" }

theorem rivals_around (parameter parameter' : Parameter) :
    Rivals [namedF parameter, namedG, namedF parameter'] "A" "f" 0 2 parameter parameter' where
  one := ⟨namedF parameter, rfl, rfl, rfl, rfl⟩
  other := ⟨namedF parameter', rfl, rfl, rfl, rfl⟩
  only index m hdeclared _ hname _ := by
    match index with
    | 0 => exact .inl rfl
    | 1 =>
        cases hdeclared
        exact absurd hname (by decide)
    | 2 => exact .inr rfl
    | _ + 3 => cases hdeclared

theorem resolve_double_or_any_double :
    ((Registry.empty.defineAll [namedF (.exactly .double), namedG, namedF .any]).resolve
      (.empty 1 Nat.one_pos) (.object ⟨"A", 0, "A"⟩) "F"
      [.number (.integer .int32 1 (by decide))]).1 = .ok ⟨⟨0⟩, [.widen .double]⟩ :=
  (resolve_double_or_any (rivals_around (.exactly .double) .any)
    (ResolutionCache.Sound.empty _ 1 Nat.one_pos) rfl (by decide) .int32 1 (by decide)).1
    Nat.two_pos

/-- Declared behind a method that takes anything, the method of a double is not selected. -/
theorem resolve_any_before_double :
    Rivals [namedF .any, namedG, namedF (.exactly .double)] "A" "f" 0 2 .any (.exactly .double) ∧
    ((Registry.empty.defineAll [namedF .any, namedG, namedF (.exactly .double)]).resolve
      (.empty 1 Nat.one_pos) (.object ⟨"A", 0, "A"⟩) "f"
      [.number (.integer .int32 1 (by decide))]).1 = .ok ⟨⟨0⟩, [.identity]⟩ := by
  refine ⟨rivals_around .any (.exactly .double), ?_⟩
  have hempty : (RecencyMap.empty 1 Nat.one_pos : ResolutionCache).isEmpty = true := rfl
  rw [Registry.resolve_of_isEmpty _ hempty ⟨_, _, _⟩]
  decide

end Stencil
