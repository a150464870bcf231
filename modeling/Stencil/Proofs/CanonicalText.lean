import Stencil.Proofs.Bindings
import Stencil.Proofs.Comparison
import Stencil.Proofs.Delivery
import Stencil.Proofs.History

namespace Stencil

namespace Value

@[simp] theorem canonicalItems_eq_map (items : List Value) :
    canonicalItems items = items.map canonical := by
  induction items with
  | nil => rfl
  | cons item rest ih => rw [canonicalItems, List.map_cons, ih]

@[simp] theorem canonicalEntries_eq_map (entries : List (String × Value)) :
    canonicalEntries entries = entries.map fun (key, v) => key ++ "=" ++ v.canonical := by
  induction entries with
  | nil => rfl
  | cons entry rest ih =>
      obtain ⟨key, v⟩ := entry
      rw [canonicalEntries, List.map_cons, ih]

@[simp] theorem dumpedEntries_eq_map (entries : List (String × Value)) :
    dumpedEntries entries = entries.map fun (key, v) => (key, dumped v) := by
  induction entries with
  | nil => rfl
  | cons entry rest ih =>
      obtain ⟨key, v⟩ := entry
      rw [dumpedEntries, List.map_cons, ih]

theorem dumped_of_tag_ne {v : Value} (h : v.tag ≠ .map) : dumped v = v.canonical := by
  cases v with
  | map entries => exact absurd rfl h
  | _ => rfl

end Value

/-- The method gives host objects of the type of the value their text, if the value is one. -/
structure Method.IsTextMember (m : Method) (v : Value) : Prop where
  isHost : ∃ host, v = .object host
  typeName : m.typeName = v.typeName
  name : Text.lower m.name = Text.lower "ToString"
  parameters : m.parameters = []

namespace Value

def textMember? (r : Registry) (v : Value) : Option Invocation :=
  match v with
  | .object host =>
      let c : Call := ⟨.object host, "ToString", []⟩
      (c.selected? r).bind (r.invocationBy? c)
  | _ => none

/-- The text of a value by itself. There is none where the member for it fails. -/
def text? (r : Registry) (v : Value) : Option String :=
  match v.textMember? r with
  | some i => (i.result v).toOption.map canonical
  | none => some v.canonical

theorem exists_textMember? {methods : List Method} {v : Value} {m : Method} (hm : m ∈ methods)
    (h : m.IsTextMember v) :
    ∃ i, v.textMember? (Registry.empty.defineAll methods) = some i := by
  obtain ⟨host, rfl⟩ := h.isHost
  have hfits : (Parameter.fitAll? m.parameters []).isSome := by
    rw [h.parameters]
    rfl
  have harity : m.arity = 0 := congrArg List.length h.parameters
  let c : Call := ⟨.object host, "ToString", []⟩
  have hsome : (c.selected? (Registry.empty.defineAll methods)).isSome :=
    Registry.selected?_isSome hm h.typeName h.name harity hfits
  obtain ⟨resolution, hselected⟩ := Option.isSome_iff_exists.mp hsome
  obtain ⟨i, hi, -⟩ := Registry.receiveAll_of_selected? hselected
  exact ⟨i, Option.bind_eq_some_iff.mpr ⟨resolution, hselected, hi⟩⟩

theorem isTextMember_of_textMember? {methods : List Method} {v : Value} {i : Invocation}
    (h : v.textMember? (Registry.empty.defineAll methods) = some i) :
    i.method ∈ methods ∧ i.method.IsTextMember v ∧ i.received = [] := by
  cases v with
  | object host =>
      obtain ⟨resolution, hselected, hi⟩ := Option.bind_eq_some_iff.mp h
      obtain ⟨i', hi', hdeclared, htype, hname, hall⟩ := Registry.receiveAll_of_selected? hselected
      obtain rfl : i = i' := Option.some.inj (hi.symm.trans hi')
      obtain ⟨hparameters, -, hreceived⟩ := hall.lengths_eq
      exact ⟨hdeclared, ⟨⟨host, rfl⟩, htype, hname, List.eq_nil_of_length_eq_zero hparameters⟩,
        List.eq_nil_of_length_eq_zero hreceived⟩
  | _ => cases h

end Value

theorem Eval.textOf_sound {setting : Setting} (hr : setting.registry.Consistent) {scope : Scope}
    (h : scope.cache.Sound setting.registry) (v : Value) :
    (Eval.textOf setting v scope).1.toOption = v.text? setting.registry := by
  cases v with
  | object host =>
      have hcall := setting.registry.call_eq_invocation scope.cache ⟨.object host, "ToString", []⟩
      have hmember : setting.registry.invocation? scope.cache ⟨.object host, "ToString", []⟩ =
          (Value.object host).textMember? setting.registry :=
        Registry.invocation?_of_sound hr h _
      rw [hmember] at hcall
      simp only [Eval.textOf, Eval.bind_apply, Eval.call?, Eval.call, Value.text?]
      generalize setting.registry.call scope.cache (.object host) "ToString" [] = called at hcall
      obtain ⟨result, cache⟩ := called
      cases hfound : (Value.object host).textMember? setting.registry with
      | some i =>
          obtain rfl : result = i.result (.object host) := by simpa only [hfound] using hcall
          simp only [Invocation.result]
          generalize i.method.action (.object host) i.received = acted
          cases acted <;> rfl
      | none =>
          obtain ⟨error, rfl, hnotFound⟩ :
              ∃ error, result = .error error ∧ error.isNotFound = true := by
            simpa only [hfound] using hcall
          simp only [Except.mapError, hnotFound, if_true]
          rfl
  | _ => rfl

theorem Rendering.writeReference_value (setting : Setting) (r : Template.Reference) {v : Value}
    (hv : v.isNull = false) (p : Progress) :
    writeReference setting .unlimited r v p =
      match Eval.textOf setting v p.scope with
      | (.ok shown, scope) => (.ok (), { p with scope, written := shown :: p.written })
      | (.error error, scope) => (.error error, { p with scope }) := by
  simp only [writeReference, hv, Bool.not_false, if_true, bind_apply, ofEval]
  rcases Eval.textOf setting v p.scope with ⟨_ | _, scope⟩ <;> rfl

theorem Template.renderWith_reference {setting : Setting} {v : Value} (hv : v.isNull = false)
    {r : Reference} {scope : Scope} (hvalue : r.eval setting scope = (.ok v, scope)) :
    let outcome := renderWith setting .unlimited [.reference r] scope
    outcome.result.toOption.map (fun _ => outcome.text) =
      (Eval.textOf setting v scope).1.toOption := by
  simp only [renderWith, renderNodes, Rendering.bind_apply, Rendering.absorbing, Progress.start,
    hvalue, Rendering.writeReference_value setting r hv]
  rcases Eval.textOf setting v scope with ⟨error | shown, after⟩
  · rfl
  · have hjoin : String.join [shown] = shown := by simp
    exact congrArg some hjoin

namespace Engine

/-- The text that a reference to a variable with the value renders to, if it renders. -/
def shown? (e : Engine) (v : Value) : Option String :=
  let run := e.evaluate .unlimited "value" "$v" (Context.empty.put "v" v)
  run.result.toOption.map fun _ => run.output

theorem From.shown?_eq {config : Config} {registry : Registry} {e : Engine}
    (h : From config registry e) (hr : registry.Consistent) {v : Value} (hv : v.isNull = false) :
    e.shown? v = v.text? registry := by
  have hparse : parse "value" "$v" =
      .ok { label := "value", nodes := [.reference (.mk false "v" [] "$v")] } := rfl
  obtain ⟨rfl, rfl, hsound⟩ := h
  let scope : Scope := ⟨Context.empty.put "v" v, e.cache⟩
  let r : Template.Reference := .mk false "v" [] "$v"
  have hvalue : r.eval e.setting scope = (.ok v, scope) := by
    have hget : (Context.empty.put "v" v).get? "v" = some v := by rw [Context.get?_put, if_pos rfl]
    simp only [r, scope, Template.Reference.eval, Eval.bind_apply, Eval.lookup, hget]
    rfl
  have htext : (Eval.textOf e.setting v scope).1.toOption = v.text? e.registry :=
    Eval.textOf_sound hr hsound v
  rw [← htext, ← Template.renderWith_reference hv hvalue]
  simp only [shown?, evaluate, hparse, Engine.render]
  generalize Template.renderWith e.setting .unlimited [.reference r] scope = outcome
  cases outcome.result <;> rfl

/-- The text stands for the value where the value is a part of what is shown, dumped or compared. -/
structure Represents (e : Engine) (v : Value) (t : String) : Prop where
  item (before after : List Value) :
    e.shown? (.list (before ++ v :: after)) =
      some ("[" ++ ", ".intercalate
        (before.map Value.canonical ++ t :: after.map Value.canonical) ++ "]")
  entry (key : String) (before after : List (String × Value)) :
    let shown : String × Value → String := fun (key, v) => key ++ "=" ++ v.canonical
    e.shown? (.map (before ++ (key, v) :: after)) =
      some ("\x7b" ++ ", ".intercalate
        (before.map shown ++ (key ++ "=" ++ t) :: after.map shown) ++ "\x7d")
  dumped (hmap : v.tag ≠ .map) (key : String) (before after : Entries Value) :
    Value.dump (before ++ (key, v) :: after) =
      Value.dumpOf (Value.dumpedEntries before ++ (key, t) :: Value.dumpedEntries after)
  compared (hnumber : v.tag.isNumeric = false) :
    Value.compare (.text t) v = some .eq ∧ Value.compare v (.text t) = some .eq

theorem From.represents_canonical {config : Config} {registry : Registry} {e : Engine}
    (h : From config registry e) (hr : registry.Consistent) {v : Value} (hv : v.isNull = false) :
    e.Represents v v.canonical where
  item before after := by
    rw [h.shown?_eq hr rfl]
    simp [Value.text?, Value.textMember?, Value.canonical]
  entry key before after := by
    intro shown
    rw [h.shown?_eq hr rfl]
    simp [Value.text?, Value.textMember?, Value.canonical, shown]
  dumped hmap key before after := by
    simp [Value.dump, Value.dumped_of_tag_ne hmap]
  compared hnumber := by
    have hself : Value.compareText v.canonical v = some .eq := by
      cases v with
      | null => cases hv
      | number n => cases n <;> cases hnumber
      | _ => exact congrArg some Std.ReflCmp.compare_self
    rw [Value.compare_text, Value.compare_text_right, hself]
    exact ⟨rfl, rfl⟩

theorem Represents.unique {e : Engine} {v : Value} {s t : String} (hs : e.Represents v s)
    (ht : e.Represents v t) : s = t := by
  have hitem := (hs.item [] []).symm.trans (ht.item [] [])
  simpa using hitem

end Engine

/-- The text that a value is shown with stands for the value in lists, maps, dumps and comparisons.
Only a host object whose type declares a member for its text is shown with what the member yields,
and there the name of the type stands for it, and nothing else does. -/
theorem shown_text_represents_value (methods : List Method) (config : Config)
    (uses : List Engine.Use) {v : Value} (hv : v.isNull = false) {t : String} :
    let e := (Engine.ofConfig config (Registry.empty.defineAll methods)).afterAll uses
    e.shown? v = some t →
      ((∀ m ∈ methods, ¬ m.IsTextMember v) → e.Represents v t) ∧
      ((∃ m ∈ methods, m.IsTextMember v) →
        (∃ m ∈ methods, m.IsTextMember v ∧
          ∃ yielded, m.action v [] = .ok yielded ∧ t = yielded.canonical) ∧
        ∀ s, e.Represents v s ↔ s = v.typeName) := by
  intro e hshown
  have hr : (Registry.empty.defineAll methods).Consistent := Registry.consistent_defineAll methods
  have he : Engine.From config (Registry.empty.defineAll methods) e :=
    (Engine.From.ofConfig config _).afterAll hr uses
  have hrepresents := he.represents_canonical hr hv
  rw [he.shown?_eq hr hv] at hshown
  refine ⟨fun hnone => ?_, fun ⟨m, hm, hmember⟩ => ⟨?_, fun s => ?_⟩⟩
  · cases hi : v.textMember? (Registry.empty.defineAll methods) with
    | none =>
        simp only [Value.text?, hi, Option.some.injEq] at hshown
        exact hshown ▸ hrepresents
    | some i =>
        obtain ⟨hdeclared, hmember, -⟩ := Value.isTextMember_of_textMember? hi
        exact absurd hmember (hnone _ hdeclared)
  · obtain ⟨i, hi⟩ := Value.exists_textMember? hm hmember
    obtain ⟨hdeclared, hmember, hreceived⟩ := Value.isTextMember_of_textMember? hi
    simp only [Value.text?, hi, Invocation.result, hreceived] at hshown
    cases hacted : i.method.action v [] with
    | error failure => simp [hacted, Except.mapError, Except.toOption] at hshown
    | ok yielded =>
        simp only [hacted, Except.mapError, Except.toOption, Option.map_some,
          Option.some.injEq] at hshown
        exact ⟨i.method, hdeclared, hmember, yielded, hacted, hshown.symm⟩
  · obtain ⟨host, rfl⟩ := hmember.isHost
    refine ⟨fun hs => hs.unique hrepresents, ?_⟩
    rintro rfl
    exact hrepresents

def labelMethods : List Method :=
  [.onPayload "A" "A" "ToString" [] fun _ _ => return .text "t"]

def labelled : Value :=
  .object { typeName := "A", identity := 0, payload := "A" }

def labelEngine : Engine :=
  .ofConfig .usual (.defineAll .empty labelMethods)

theorem labelEngine_shown? {v : Value} (hv : v.isNull = false) :
    labelEngine.shown? v = v.text? (.defineAll .empty labelMethods) :=
  (Engine.From.ofConfig _ _).shown?_eq (Registry.consistent_defineAll labelMethods) hv

/-- The object is shown with one text and is part of texts with another one; the list around it is
shown and is part of texts with the same text. -/
theorem shown_text_represents_value_labelled :
    labelEngine.shown? labelled = some "t" ∧
      (∀ s, labelEngine.Represents labelled s ↔ s = "A") ∧
      labelEngine.shown? (.list [labelled]) = some "[A]" ∧
      labelEngine.Represents (.list [labelled]) "[A]" := by
  have hobject : labelEngine.shown? labelled = some "t" := labelEngine_shown? rfl
  have hlist : labelEngine.shown? (.list [labelled]) = some "[A]" := labelEngine_shown? rfl
  have hmember : ∃ m ∈ labelMethods, m.IsTextMember labelled :=
    ⟨_, List.mem_singleton_self _, ⟨_, rfl⟩, rfl, rfl, rfl⟩
  have hnone : ∀ m ∈ labelMethods, ¬ m.IsTextMember (.list [labelled]) :=
    fun m _ h => nomatch h.isHost
  exact ⟨hobject,
    ((shown_text_represents_value labelMethods .usual [] rfl hobject).2 hmember).2,
    hlist,
    (shown_text_represents_value labelMethods .usual [] rfl hlist).1 hnone⟩

/-- The object is shown as `t` and nowhere else represented by it. -/
theorem shown_text_missing_from_parts :
    labelled.isNull = false ∧
      labelEngine.shown? labelled = some "t" ∧
      labelEngine.shown? (.list [labelled]) = some "[A]" ∧
      labelEngine.shown? (.map [("k", labelled)]) = some "\x7bk=A\x7d" ∧
      Value.dump [("k", labelled)] = "1:k=<A>" ∧
      Value.compare (.text "t") labelled = some .gt ∧
      ¬ labelEngine.Represents labelled "t" := by
  have hobject : labelEngine.shown? labelled = some "t" := labelEngine_shown? rfl
  have hlist : labelEngine.shown? (.list [labelled]) = some "[A]" := labelEngine_shown? rfl
  have hmap : labelEngine.shown? (.map [("k", labelled)]) = some "\x7bk=A\x7d" :=
    labelEngine_shown? rfl
  refine ⟨rfl, hobject, hlist, hmap, by decide +kernel, rfl, fun h => ?_⟩
  have hitem := hlist.symm.trans (h.item [] [])
  exact absurd hitem (by decide)

end Stencil
