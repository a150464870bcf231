import Stencil.Proofs.Resolution

namespace Stencil

theorem Width.eight_le_bits (w : Width) : 8 ≤ w.bits := by
  cases w <;> decide

namespace IntegerKind

variable {k k' : IntegerKind} (h : (TypeTag.integer k).widensTo (.integer k') = true)
include h

theorem of_widensTo :
    (k'.unsigned = true → k.unsigned = true) ∧ k.width.bits < k'.width.bits := by
  cases hsource : k.unsigned <;> cases htarget : k'.unsigned <;>
    simp [TypeTag.widensTo, TypeTag.numeric?, numberClass, hsource, htarget] at h
  all_goals exact ⟨by simp, h⟩

theorem least_le_of_widensTo : k'.least ≤ k.least := by
  obtain ⟨hsign, hbits⟩ := of_widensTo h
  have hpow : (Nat.pow 2 (k.width.bits - 1) : Int) ≤ Nat.pow 2 (k'.width.bits - 1) :=
    Int.ofNat_le.mpr (Nat.pow_le_pow_right Nat.two_pos (by omega))
  cases hsource : k.unsigned <;> cases htarget : k'.unsigned <;>
    simp only [least, hsource, htarget, Bool.false_eq_true, if_false, if_true]
  case false.true => exact absurd (hsign htarget) (by simp [hsource])
  all_goals omega

theorem greatest_le_of_widensTo : k.greatest ≤ k'.greatest := by
  obtain ⟨hsign, hbits⟩ := of_widensTo h
  have hpow {m n : Nat} (hle : m ≤ n) : (Nat.pow 2 m : Int) - 1 ≤ Nat.pow 2 n - 1 :=
    Int.sub_le_sub_right (Int.ofNat_le.mpr (Nat.pow_le_pow_right Nat.two_pos hle)) 1
  cases hsource : k.unsigned <;> cases htarget : k'.unsigned <;>
    simp only [greatest, hsource, htarget, Bool.false_eq_true, if_false, if_true]
  case false.true => exact absurd (hsign htarget) (by simp [hsource])
  all_goals exact hpow (by omega)

theorem Holds.wider {v : Int} (hv : k.Holds v) : k'.Holds v :=
  ⟨Int.le_trans (least_le_of_widensTo h) hv.1, Int.le_trans hv.2 (greatest_le_of_widensTo h)⟩

end IntegerKind

namespace Number

variable {n : Number}

theorem widen?_integer {kind : IntegerKind} (h : n.tag.widensTo (.integer kind) = true) :
    ∃ v, ∃ hv : kind.Holds v,
      n.integer? = some v ∧ n.widen? (.integer kind) = some (.integer kind v hv) := by
  cases n with
  | integer source v hv =>
      have hwider := hv.wider h
      refine ⟨v, hwider, rfl, ?_⟩
      have hwidth : kind.width ≠ .w8 := by
        intro heq
        have hbits := (IntegerKind.of_widensTo h).2
        rw [heq] at hbits
        exact Nat.not_lt.mpr source.width.eight_le_bits hbits
      simp [widen?, hwidth, integer?, IntegerKind.number?, hwider]
  | single x | double x =>
      cases hkind : kind.unsigned <;>
        simp [tag, TypeTag.widensTo, TypeTag.numeric?, IntegerKind.numberClass, hkind] at h

theorem widen?_of_widensTo {target : TypeTag} (h : n.tag.widensTo target = true) :
    ∃ m, n.widen? target = some m ∧ m.tag = target := by
  cases target with
  | integer kind =>
      obtain ⟨v, hv, -, hwiden⟩ := widen?_integer h
      exact ⟨_, hwiden, rfl⟩
  | single => exact ⟨_, rfl, rfl⟩
  | double => exact ⟨_, rfl, rfl⟩
  | _ => simp [TypeTag.widensTo, TypeTag.numeric?] at h

end Number

/-- What a parameter may receive for an argument under a coercion. -/
structure Parameter.Receives (parameter : Parameter) (coercion : Coercion)
    (argument received : Value) : Prop where
  any : parameter = .any → received = argument
  declared : ∀ tag, parameter = .exactly tag →
    received.tag = tag ∨
      received = .null ∧ (tag = .text ∨ tag = .list ∨ tag = .map ∨ ∃ name, tag = .object name)
  unchanged : ∀ tag, parameter = .exactly tag → argument.tag = tag → received = argument
  integer : ∀ kind n, parameter = .exactly (.integer kind) → argument = .number n →
    ∃ v, ∃ hv : kind.Holds v, n.integer? = some v ∧ received = .number (.integer kind v hv)
  character : ∀ c, parameter = .exactly .text → argument = .char c → received = .text c.toString
  /-- A planned widening finds a number of the wider type. -/
  widened : ∀ target, coercion = .widen target →
    ∃ n m, argument = .number n ∧ n.widen? target = some m ∧ received = .number m

namespace Parameter

theorem receives_any (argument : Value) : Receives .any .identity argument argument where
  any _ := rfl
  declared _ h := nomatch h
  unchanged _ h := nomatch h
  integer _ _ h := nomatch h
  character _ h := nomatch h
  widened _ h := nomatch h

theorem receives_exact (argument : Value) :
    Receives (.exactly argument.tag) .identity argument argument where
  any h := nomatch h
  declared _ h := .inl (exactly.inj h)
  unchanged _ _ _ := rfl
  integer kind n h hn := by
    subst hn
    cases n with
    | integer source v hv =>
        cases h
        exact ⟨v, hv, rfl, rfl⟩
    | single x | double x => cases h
  character c h hc := by
    subst hc
    cases h
  widened _ h := nomatch h

theorem receives_widened {n : Number} {target : TypeTag} (h : n.tag.widensTo target = true)
    (hne : n.tag ≠ target) :
    Receives (.exactly target) (.widen target) (.number n)
      ((Coercion.widen target).apply (.number n)) := by
  obtain ⟨m, hwiden, htag⟩ := Number.widen?_of_widensTo h
  have hreceived : (Coercion.widen target).apply (.number n) = .number m := by
    simp only [Coercion.apply, hwiden, Option.getD_some]
  rw [hreceived]
  exact {
    any := nofun
    declared := fun tag heq => .inl (htag.trans (exactly.inj heq))
    unchanged := fun tag heq hsame => absurd (hsame.trans (exactly.inj heq).symm) hne
    integer := by
      intro kind n' heq hn
      cases heq
      cases hn
      obtain ⟨v, hv, hinteger, hwiden'⟩ := Number.widen?_integer h
      cases hwiden.symm.trans hwiden'
      exact ⟨v, hv, hinteger, rfl⟩
    character := nofun
    widened := fun _ heq => ⟨n, m, rfl, Coercion.widen.inj heq ▸ hwiden, rfl⟩ }

theorem receives_character (c : Char) :
    Receives (.exactly .text) .stringify (.char c) (.text c.toString) where
  any h := nomatch h
  declared _ h := .inl (exactly.inj h)
  unchanged _ h hsame := nomatch (exactly.inj h).trans hsame.symm
  integer _ _ h := nomatch h
  character _ _ hc := Value.char.inj hc ▸ rfl
  widened _ h := nomatch h

theorem receives_null {target : TypeTag} (h : target.acceptsNull = true) (hne : .null ≠ target) :
    Receives (.exactly target) .identity .null .null where
  any _ := rfl
  declared tag heq := by
    cases heq
    refine .inr ⟨rfl, ?_⟩
    cases target with
    | text => exact .inl rfl
    | list => exact .inr (.inl rfl)
    | map => exact .inr (.inr (.inl rfl))
    | object name => exact .inr (.inr (.inr ⟨name, rfl⟩))
    | _ => cases h
  unchanged _ _ _ := rfl
  integer _ _ _ h := nomatch h
  character _ _ h := nomatch h
  widened _ h := nomatch h

theorem exists_number_of_widensTo {argument : Value} {target : TypeTag}
    (h : argument.tag.widensTo target = true) : ∃ n, argument = .number n := by
  cases argument with
  | number n => exact ⟨n, rfl⟩
  | _ => simp [Value.tag, TypeTag.widensTo, TypeTag.numeric?] at h

theorem receives_of_fit? {parameter : Parameter} {argument : Value} {fit : Fit}
    {coercion : Coercion} (h : parameter.fit? argument.tag = some (fit, coercion)) :
    parameter.Receives coercion argument (coercion.apply argument) := by
  cases parameter with
  | any =>
      cases h
      exact receives_any argument
  | exactly target =>
      simp only [fit?] at h
      split at h
      · rename_i hsame
        cases h
        subst hsame
        exact receives_exact argument
      rename_i hne
      split at h
      · rename_i hwidens
        cases h
        obtain ⟨n, rfl⟩ := exists_number_of_widensTo hwidens
        exact receives_widened hwidens (Ne.symm hne)
      split at h
      · rename_i hcharacter
        cases h
        obtain ⟨htag, rfl⟩ := hcharacter
        cases argument with
        | char c => exact receives_character c
        | number n => cases n <;> cases htag
        | _ => cases htag
      split at h
      · rename_i hnull
        cases h
        obtain ⟨htag, haccepts⟩ := hnull
        cases argument with
        | null => exact receives_null haccepts (Ne.symm hne)
        | number n => cases n <;> cases htag
        | _ => cases htag
      · cases h

/-- The parameters of a method, a plan, the arguments of a call, and what the method receives. -/
inductive ReceiveAll : List Parameter → List Coercion → List Value → List Value → Prop where
  | nil : ReceiveAll [] [] [] []
  | cons {parameter : Parameter} {coercion : Coercion} {argument received : Value}
      {parameters : List Parameter} {coercions : List Coercion} {arguments others : List Value}
      (hfirst : parameter.Receives coercion argument received)
      (hrest : ReceiveAll parameters coercions arguments others) :
      ReceiveAll (parameter :: parameters) (coercion :: coercions) (argument :: arguments)
        (received :: others)

theorem receiveAll_of_fitAll? {parameters : List Parameter} {arguments : List Value} {fit : Fit}
    {coercions : List Coercion} (hlength : parameters.length = arguments.length)
    (h : fitAll? parameters (arguments.map Value.tag) = some (fit, coercions)) :
    ReceiveAll parameters coercions arguments
      (arguments.zipWith (fun value coercion => coercion.apply value) coercions) := by
  induction parameters generalizing arguments fit coercions with
  | nil =>
      cases arguments with
      | nil =>
          cases h
          exact .nil
      | cons argument arguments => cases hlength
  | cons parameter parameters ih =>
      cases arguments with
      | nil => cases hlength
      | cons argument arguments =>
          simp only [List.map_cons, fitAll?, Option.bind_eq_bind, Option.bind_eq_some_iff,
            Prod.exists] at h
          obtain ⟨fit', coercion, hfit, others, coercions', hothers, heq⟩ := h
          cases heq
          exact .cons (receives_of_fit? hfit) (ih (Nat.succ.inj hlength) hothers)

theorem ReceiveAll.lengths_eq {parameters : List Parameter} {coercions : List Coercion}
    {arguments received : List Value} (h : ReceiveAll parameters coercions arguments received) :
    parameters.length = arguments.length ∧ coercions.length = arguments.length ∧
      received.length = arguments.length := by
  induction h with
  | nil => exact ⟨rfl, rfl, rfl⟩
  | cons _ _ ih =>
      obtain ⟨hparameters, hcoercions, hreceived⟩ := ih
      exact ⟨congrArg Nat.succ hparameters, congrArg Nat.succ hcoercions,
        congrArg Nat.succ hreceived⟩

end Parameter

namespace Registry

theorem method?_of_mem_candidates {r : Registry} {typeName : String} {id : MethodId}
    {m : Method} (h : (id, m) ∈ r.candidates typeName) : r.method? id = some m := by
  obtain ⟨id', -, hid⟩ := List.mem_filterMap.mp h
  obtain ⟨m', hm, heq⟩ := Option.map_eq_some_iff.mp hid
  cases heq
  exact hm

theorem exists_hit_of_best? {found : List Hit} {resolution : Resolution}
    (h : best? found = some resolution) :
    ∃ hit ∈ found, resolution = ⟨hit.id, hit.coercions⟩ := by
  obtain ⟨hit, hhit, rfl⟩ := Option.map_eq_some_iff.mp h
  refine ⟨hit, ?_, rfl⟩
  rw [Option.orElse_apply, Option.orElse_eq_or, Option.or_eq_some_iff] at hhit
  rcases hhit with hexact | ⟨-, hhead⟩
  · exact List.mem_of_find?_eq_some hexact
  · exact List.mem_of_head? hhead

theorem of_select? {r : Registry} {typeName name : String} {arguments : List TypeTag}
    {resolution : Resolution} (h : r.select? typeName name arguments = some resolution) :
    ∃ m, (resolution.method, m) ∈ r.candidates typeName ∧ Text.lower m.name = Text.lower name ∧
      m.arity = arguments.length ∧
      ∃ fit, Parameter.fitAll? m.parameters arguments = some (fit, resolution.coercions) := by
  have hfrom {candidates : List (MethodId × Method)}
      (hbest : best? (hits candidates arguments) = some resolution) :
      ∃ m, (resolution.method, m) ∈ candidates ∧
        ∃ fit, Parameter.fitAll? m.parameters arguments = some (fit, resolution.coercions) := by
    obtain ⟨hit, hmem, rfl⟩ := exists_hit_of_best? hbest
    obtain ⟨⟨id, m⟩, hcandidate, hfits⟩ := List.mem_filterMap.mp hmem
    obtain ⟨⟨fit, coercions⟩, hfit, rfl⟩ := Option.map_eq_some_iff.mp hfits
    exact ⟨m, hcandidate, fit, hfit⟩
  simp only [select?] at h
  rw [Option.orElse_apply, Option.orElse_eq_or, Option.or_eq_some_iff] at h
  rcases h with hspelled | ⟨-, hrespelled⟩
  · obtain ⟨m, hmem, hfit⟩ := hfrom hspelled
    simp only [List.mem_filter, beq_iff_eq] at hmem
    obtain ⟨⟨hcandidate, harity⟩, hname⟩ := hmem
    exact ⟨m, hcandidate, congrArg Text.lower hname, harity, hfit⟩
  · obtain ⟨m, hmem, hfit⟩ := hfrom hrespelled
    simp only [List.mem_filter, beq_iff_eq, Bool.and_eq_true] at hmem
    obtain ⟨⟨hcandidate, harity⟩, -, hname⟩ := hmem
    exact ⟨m, hcandidate, hname, harity, hfit⟩

theorem best?_hits_isSome {candidates : List (MethodId × Method)} {arguments : List TypeTag}
    (candidate : MethodId × Method) (hmem : candidate ∈ candidates)
    (hfits : (Parameter.fitAll? candidate.2.parameters arguments).isSome) :
    (best? (hits candidates arguments)).isSome := by
  obtain ⟨⟨fit, coercions⟩, hfit⟩ := Option.isSome_iff_exists.mp hfits
  have hhit : { id := candidate.1, fit, coercions } ∈ hits candidates arguments :=
    List.mem_filterMap.mpr ⟨candidate, hmem, by simp only [hfit, Option.map_some]⟩
  rw [best?, Option.isSome_map, Option.orElse_apply, Option.orElse_eq_or, Option.isSome_or]
  simp [List.ne_nil_of_mem hhit]

theorem selected?_isSome {methods : List Method} {m : Method} (hm : m ∈ methods) {c : Call}
    (htype : m.typeName = c.receiver.typeName) (hname : Text.lower m.name = Text.lower c.name)
    (harity : m.arity = c.arguments.length)
    (hfits : (Parameter.fitAll? m.parameters (c.arguments.map Value.tag)).isSome) :
    (c.selected? (empty.defineAll methods)).isSome := by
  obtain ⟨index, hdeclared⟩ := List.mem_iff_getElem?.mp hm
  have hmem : (⟨index⟩, m) ∈ (empty.defineAll methods).candidates c.receiver.typeName :=
    mem_candidates_iff.mpr ⟨hdeclared, htype⟩
  rw [Call.selected?, select?, Option.orElse_apply, Option.orElse_eq_or, Option.isSome_or,
    Bool.or_eq_true]
  by_cases hspelled : m.name = c.name
  · refine .inl (best?_hits_isSome (⟨index⟩, m) ?_ hfits)
    simp [List.mem_filter, hmem, harity, hspelled]
  · refine .inr (best?_hits_isSome (⟨index⟩, m) ?_ hfits)
    simp [List.mem_filter, hmem, harity, hspelled, hname]

end Registry

namespace Shared

def visitAll (r : Registry) (s : Shared) (visits : List Visit) : Shared :=
  visits.foldl (fun s v => (s.visit r v).2) s

theorem visitAll_sound {r : Registry} (hr : r.Consistent) {s : Shared} (h : s.cache.Sound r)
    (visits : List Visit) : (s.visitAll r visits).cache.Sound r := by
  induction visits generalizing s with
  | nil => exact h
  | cons v rest ih => exact ih (visit_sound hr h v).2

end Shared

/-- A method that a call invokes, with the plan that is used and what the method receives. -/
structure Invocation where
  method : Method
  coercions : List Coercion
  received : List Value

def Invocation.result (i : Invocation) (receiver : Value) : Except MethodError Value :=
  (i.method.action receiver i.received).mapError (.invocation i.method.typeName i.method.name)

namespace Registry

def invocationBy? (r : Registry) (c : Call) (resolution : Resolution) : Option Invocation :=
  (r.method? resolution.method).map fun method => {
    method
    coercions := resolution.coercions
    received := c.arguments.zipWith (fun value coercion => coercion.apply value)
      resolution.coercions }

def invocation? (r : Registry) (cache : ResolutionCache) (c : Call) : Option Invocation :=
  match (r.resolve cache c.receiver c.name c.arguments).1 with
  | .error _ => none
  | .ok resolution => r.invocationBy? c resolution

theorem call_eq_invocation (r : Registry) (cache : ResolutionCache) (c : Call) :
    match r.invocation? cache c with
    | some i => (r.call cache c.receiver c.name c.arguments).1 = i.result c.receiver
    | none => ∃ error, (r.call cache c.receiver c.name c.arguments).1 = .error error ∧
        error.isNotFound = true := by
  have hcold : ∀ error, (r.resolve cache c.receiver c.name c.arguments).1 = .error error →
      error.isNotFound = true := by
    intro error herror
    rw [resolve_eq] at herror
    split at herror
    · cases herror
    · simp only [Call.cold] at herror
      split at herror <;> cases herror
      rfl
  simp only [invocation?, call]
  generalize r.resolve cache c.receiver c.name c.arguments = resolved at hcold
  obtain ⟨error | resolution, after⟩ := resolved
  · exact ⟨error, rfl, hcold error rfl⟩
  · simp only [invoke, invocationBy?]
    cases r.method? resolution.method with
    | none => exact ⟨_, rfl, rfl⟩
    | some method => rfl

/-- With a sound cache a call invokes what selection finds, whoever made the plan. -/
theorem invocation?_of_sound {r : Registry} (hr : r.Consistent) {cache : ResolutionCache}
    (h : cache.Sound r) (c : Call) :
    r.invocation? cache c = (c.selected? r).bind (r.invocationBy? c) := by
  simp only [invocation?, (resolve_sound hr h c).1, Call.cold]
  cases c.selected? r <;> rfl

theorem receiveAll_of_selected? {methods : List Method} {c : Call} {resolution : Resolution}
    (h : c.selected? (empty.defineAll methods) = some resolution) :
    ∃ i, (empty.defineAll methods).invocationBy? c resolution = some i ∧
      i.method ∈ methods ∧ i.method.typeName = c.receiver.typeName ∧
      Text.lower i.method.name = Text.lower c.name ∧
      Parameter.ReceiveAll i.method.parameters i.coercions c.arguments i.received := by
  obtain ⟨m, hmem, hname, harity, fit, hfit⟩ := of_select? h
  obtain ⟨hdeclared, htype⟩ := mem_candidates_iff.mp hmem
  rw [List.length_map] at harity
  refine ⟨_, Option.map_eq_some_iff.mpr ⟨m, method?_of_mem_candidates hmem, rfl⟩,
    List.mem_of_getElem? hdeclared, htype, hname, ?_⟩
  exact Parameter.receiveAll_of_fitAll? harity hfit

end Registry

/-- A call that invokes a method invokes one that is declared for the type of the receiver under the
name of the call, up to case. The method receives one value for each of its parameters, as declared:
unchanged, or null where that is allowed, or widened to a number of the declared type, the same
integer where that is an integer type, or a text of one character. -/
theorem calls_deliver_declared_types (methods : List Method) (capacity : Nat)
    (hpos : 0 < capacity) (visits : List Visit) (c : Call) :
    let r := Registry.empty.defineAll methods
    let cache := ((Shared.start capacity hpos).visitAll r visits).cache
    (r.invocation? cache c = none →
      ∃ error, (r.call cache c.receiver c.name c.arguments).1 = .error error ∧
        error.isNotFound = true) ∧
    ∀ i, r.invocation? cache c = some i →
      (r.call cache c.receiver c.name c.arguments).1 = i.result c.receiver ∧
      i.method ∈ methods ∧ i.method.typeName = c.receiver.typeName ∧
      Text.lower i.method.name = Text.lower c.name ∧
      i.received.length = i.method.arity ∧
      Parameter.ReceiveAll i.method.parameters i.coercions c.arguments i.received := by
  intro r cache
  have hr : r.Consistent := Registry.consistent_defineAll methods
  have hempty := ResolutionCache.Sound.empty r capacity hpos
  have hsound : cache.Sound r := Shared.visitAll_sound hr hempty visits
  have hcall := r.call_eq_invocation cache c
  refine ⟨fun hnone => ?_, fun i hi => ?_⟩
  · rw [hnone] at hcall
    exact hcall
  · rw [hi] at hcall
    rw [Registry.invocation?_of_sound hr hsound] at hi
    obtain ⟨resolution, hselected, hinvoked⟩ := Option.bind_eq_some_iff.mp hi
    obtain ⟨i', hi', hdeclared, htype, hname, hall⟩ := Registry.receiveAll_of_selected? hselected
    obtain rfl : i = i' := Option.some.inj (hinvoked.symm.trans hi')
    obtain ⟨hparameters, -, hreceived⟩ := hall.lengths_eq
    exact ⟨hcall, hdeclared, htype, hname, hreceived.trans hparameters.symm, hall⟩

def paddingMethods : List Method :=
  [Builtin.onText "Pad" [.exactly (.integer .int64), .any, .exactly .text, .exactly .list]
    fun _ arguments => return .list arguments]

def tiny (v : Int) (h : IntegerKind.Holds { unsigned := false, width := .w8 } v) : Value :=
  .number (.integer { unsigned := false, width := .w8 } v h)

def paddingVisits : List Visit :=
  [.lookUp 0 ⟨.text "a", "pad", [tiny 7 (by decide), .char 'y', .char 'y', .null]⟩, .bind 0]

def padding : Call :=
  ⟨.text "b", "PAD", [tiny (-5) (by decide), .char 'x', .char 'x', .null]⟩

theorem calls_deliver_declared_types_padding :
    let r := Registry.empty.defineAll paddingMethods
    let cache := ((Shared.start 1 Nat.one_pos).visitAll r paddingVisits).cache
    0 < 1 ∧ ∃ i, r.invocation? cache padding = some i ∧
      i.received = [.number (.integer .int64 (-5) (by decide)), .char 'x', .text "x", .null] ∧
      Parameter.ReceiveAll i.method.parameters i.coercions padding.arguments i.received := by
  intro r cache
  have hr : r.Consistent := Registry.consistent_defineAll paddingMethods
  have hsound : cache.Sound r :=
    Shared.visitAll_sound hr (.empty r 1 Nat.one_pos) paddingVisits
  have hselected : padding.selected? r =
      some ⟨⟨0⟩, [.widen (.integer .int64), .identity, .stringify, .identity]⟩ := by decide
  have hi := Registry.invocation?_of_sound hr hsound padding
  rw [hselected, Option.bind_some] at hi
  obtain ⟨-, hinvoked⟩ :=
    calls_deliver_declared_types paddingMethods 1 Nat.one_pos paddingVisits padding
  obtain ⟨-, -, -, -, -, hall⟩ := hinvoked _ hi
  exact ⟨Nat.one_pos, _, hi, rfl, hall⟩

end Stencil
