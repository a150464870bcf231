import Mathlib.Data.List.Forall2
import Mathlib.Data.List.Nodup
import Stencil.Proofs.Delivery

/-! The members of texts, maps and lists stay in range. Each of them is written here once more with
its accesses spelled out: nothing comes of one that is out of range, not even a failure. A call
hands over as many arguments as the member declares, and an index that was read is in range of what
it was read for, so a call always comes to a value or an error. -/

namespace Stencil

namespace Builtin

/-- Steps that fail, or that reach for something out of range. -/
abbrev Access (α : Type) : Type :=
  ExceptT Failure Option α

namespace Access

def inRange {α : Type} (found : Option α) : Access α :=
  .mk (found.map .ok)

def settled {α : Type} (x : Except Failure α) : Access α :=
  .mk (some x)

def argumentAt (arguments : List Value) (i : Nat) : Access Value :=
  inRange arguments[i]?

def difference (a b : Nat) : Access Nat :=
  inRange (if b ≤ a then some (a - b) else none)

def charsBetween (chars : List Char) (start stop : Nat) : Access (List Char) :=
  inRange <|
    if start ≤ stop ∧ stop ≤ chars.length then some ((chars.drop start).take (stop - start))
    else none

/-- All accesses are in range, and the steps come to `y`. -/
def Yields {α : Type} (x : Access α) (y : Except Failure α) : Prop :=
  x = some y

namespace Yields

variable {α β : Type}

theorem pure (value : α) : Yields (Pure.pure value) (Pure.pure value) :=
  rfl

theorem settled (x : Except Failure α) : Yields (Access.settled x) x :=
  rfl

theorem bind {x : Access α} {y : Except Failure α} {f : α → Access β}
    {g : α → Except Failure β} (h : Yields x y)
    (hnext : ∀ value, y = .ok value → Yields (f value) (g value)) :
    Yields (x >>= f) (y >>= g) := by
  cases h
  cases y with
  | error failure => rfl
  | ok value => exact hnext value rfl

theorem after {x : Access α} {value : α} {f : α → Access β} {y : Except Failure β}
    (h : Yields x (.ok value)) (hnext : Yields (f value) y) : Yields (x >>= f) y := by
  cases h
  exact hnext

theorem argumentAt {arguments : List Value} {i : Nat} (h : i < arguments.length) :
    Yields (Access.argumentAt arguments i) (.ok (Builtin.argument arguments i)) := by
  simp [Yields, Access.argumentAt, Access.inRange, Builtin.argument, ExceptT.mk, h]

theorem difference {a b : Nat} (h : b ≤ a) : Yields (Access.difference a b) (.ok (a - b)) := by
  rw [Access.difference, if_pos h]
  rfl

theorem charsBetween {chars : List Char} {start stop : Nat} (hstart : start ≤ stop)
    (hstop : stop ≤ chars.length) :
    Yields (Access.charsBetween chars start stop)
      (.ok ((chars.drop start).take (stop - start))) := by
  rw [Access.charsBetween, if_pos ⟨hstart, hstop⟩]
  rfl

end Yields

end Access

structure CheckedMethod where
  typeName : String
  name : String
  parameters : List Parameter
  action : Value → List Value → Access Value

/-- With one argument for each parameter the accesses of the member are in range, and it does what
the method does. -/
structure CheckedMethod.Guards (g : CheckedMethod) (m : Method) : Prop where
  typeName : g.typeName = m.typeName
  name : g.name = m.name
  parameters : g.parameters = m.parameters
  action : ∀ receiver arguments, arguments.length = m.arity →
    (g.action receiver arguments).Yields (m.action receiver arguments)

namespace Checked

open Access

def onRead {σ : Type} (tag : TypeTag) (read : Value → Except Failure σ) (name : String)
    (parameters : List Parameter) (action : σ → List Value → Access Value) : CheckedMethod :=
  { typeName := tag.name, name, parameters
    action := fun receiver arguments => do action (← settled (read receiver)) arguments }

def onText := onRead .text textOf

def onMap := onRead .map entriesOf

def onList := onRead .list itemsOf

def onPayload (payload typeName name : String) (parameters : List Parameter)
    (action : HostObject → List Value → Access Value) : CheckedMethod :=
  { typeName, name, parameters
    action := fun receiver arguments =>
      match receiver with
      | .object host =>
          if host.payload = payload then action host arguments
          else throw (.foreignReceiver typeName receiver.typeName)
      | _ => throw (.foreignReceiver typeName receiver.typeName) }

def onTexts (name : String) (test : List Char → List Char → Bool) : CheckedMethod :=
  onText name [textParameter] fun s arguments => do
    return .boolean (test (← settled (textOf (← argumentAt arguments 0))).toList s.toList)

def tailFrom (s : String) (start : Value) : Access Value := do
  let chars := s.toList
  let start ← settled (indexOf start chars.length)
  return .text (String.ofList (← charsBetween chars start chars.length))

def slice (s : String) (start length : Value) : Access Value := do
  let chars := s.toList
  let start ← settled (indexOf start chars.length)
  let length ← settled (indexOf length (← difference chars.length start))
  return .text (String.ofList (← charsBetween chars start (start + length)))

def textMethods : List CheckedMethod := [
  onText "Length" [] fun s _ => return count s.length,
  onText "ToUpper" [] fun s _ => return .text (Text.upper s),
  onText "ToLower" [] fun s _ => return .text (Text.lower s),
  onText "Trim" [] fun s _ => return .text (String.ofList (Text.trim s.toList)),
  onTexts "Contains" Text.hasPart,
  onTexts "StartsWith" List.isPrefixOf,
  onTexts "EndsWith" List.isSuffixOf,
  onText "Substring" [indexParameter] fun s arguments => do
    tailFrom s (← argumentAt arguments 0),
  onText "Substring" [indexParameter, indexParameter] fun s arguments => do
    slice s (← argumentAt arguments 0) (← argumentAt arguments 1)]

def mapMethods : List CheckedMethod := [
  onMap "Count" [] fun entries _ => return count entries.length,
  onMap "ContainsKey" [textParameter] fun entries arguments => do
    return .boolean (entries.find? (← settled (textOf (← argumentAt arguments 0)))).isSome,
  onMap "Get" [textParameter] fun entries arguments => do
    return (entries.find? (← settled (textOf (← argumentAt arguments 0)))).getD .null,
  onMap "Keys" [] fun entries _ => return .list (entries.map (.text ·.1))]

def listMethods : List CheckedMethod := [
  onList "Count" [] fun items _ => return count items.length,
  onList "Get" [.exactly (.integer .int32)] fun items arguments => do
    settled (item items (← argumentAt arguments 0))]

def dumpMethod : CheckedMethod :=
  onPayload dumpHelper dumpHelper "Dump" [.exactly .map] fun _ arguments => do
    match ← argumentAt arguments 0 with
    | .map entries => return .text (Value.dump entries)
    | .null => throw .nullOptions
    | other => throw (.undumpable other.typeName)

def methods : List CheckedMethod :=
  textMethods ++ mapMethods ++ listMethods ++ [dumpMethod]

end Checked

theorem le_of_indexOf {x : Value} {greatest i : Nat} (h : indexOf x greatest = .ok i) :
    i ≤ greatest := by
  rw [indexOf.eq_def] at h
  split at h
  · split at h <;> cases h
    omega
  · cases h

section

variable {name : String} {parameters : List Parameter}

theorem guards_onRead {σ : Type} {tag : TypeTag} {read : Value → Except Failure σ}
    {action : σ → List Value → Access Value} {action' : σ → List Value → Except Failure Value}
    (h : ∀ part arguments, arguments.length = parameters.length →
      (action part arguments).Yields (action' part arguments)) :
    (Checked.onRead tag read name parameters action).Guards {
      typeName := tag.name, name, parameters
      action := fun receiver arguments => do action' (← read receiver) arguments } where
  typeName := rfl
  name := rfl
  parameters := rfl
  action receiver arguments hlength :=
    (Access.Yields.settled (read receiver)).bind fun part _ => h part arguments hlength

theorem guards_onPayload {payload typeName : String}
    {action : HostObject → List Value → Access Value}
    {action' : HostObject → List Value → Except Failure Value}
    (h : ∀ host arguments, arguments.length = parameters.length →
      (action host arguments).Yields (action' host arguments)) :
    (Checked.onPayload payload typeName name parameters action).Guards
      (Method.onPayload payload typeName name parameters action') where
  typeName := rfl
  name := rfl
  parameters := rfl
  action receiver arguments hlength := by
    cases receiver with
    | object host =>
        simp only [Checked.onPayload, Method.onPayload]
        split
        · exact h host arguments hlength
        · rfl
    | _ => rfl

theorem yields_textArgument {arguments : List Value} (hlength : arguments.length = 1)
    {next : String → Access Value} {next' : String → Except Failure Value}
    (h : ∀ s, (next s).Yields (next' s)) :
    (do next (← Access.settled (textOf (← Access.argumentAt arguments 0)))).Yields
      (do next' (← textOf (argument arguments 0))) := by
  have hargument : 0 < arguments.length := hlength ▸ Nat.one_pos
  exact (Access.Yields.argumentAt hargument).after <|
    (Access.Yields.settled _).bind fun s _ => h s

theorem guards_onTexts (name : String) (test : List Char → List Char → Bool) :
    (Checked.onTexts name test).Guards (onTexts name test) :=
  guards_onRead fun _ _ hlength => yields_textArgument hlength fun _ => .pure _

theorem yields_tailFrom (s : String) (start : Value) :
    (Checked.tailFrom s start).Yields (tailFrom s start) := by
  refine (Access.Yields.settled _).bind fun i hi => ?_
  have hrange : i ≤ s.toList.length := le_of_indexOf hi
  have hall : (s.toList.drop i).take (s.toList.length - i) = s.toList.drop i := by
    rw [← List.length_drop, List.take_length]
  have hchars := Access.Yields.charsBetween hrange Nat.le.refl
  rw [hall] at hchars
  exact hchars.after (.pure _)

theorem yields_slice (s : String) (start length : Value) :
    (Checked.slice s start length).Yields (slice s start length) := by
  refine (Access.Yields.settled _).bind fun i hi => ?_
  have hstart : i ≤ s.toList.length := le_of_indexOf hi
  refine (Access.Yields.difference hstart).after ?_
  refine (Access.Yields.settled _).bind fun n hn => ?_
  have hlength : n ≤ s.toList.length - i := le_of_indexOf hn
  have hstop : i + n ≤ s.toList.length := by omega
  have hchars := Access.Yields.charsBetween (Nat.le_add_right i n) hstop
  rw [Nat.add_sub_cancel_left] at hchars
  exact hchars.after (.pure _)

theorem guards_textMethods :
    List.Forall₂ CheckedMethod.Guards Checked.textMethods textMethods := by
  refine .cons (guards_onRead fun _ _ _ => .pure _) ?_
  refine .cons (guards_onRead fun _ _ _ => .pure _) ?_
  refine .cons (guards_onRead fun _ _ _ => .pure _) ?_
  refine .cons (guards_onRead fun _ _ _ => .pure _) ?_
  refine .cons (guards_onTexts _ _) (.cons (guards_onTexts _ _) (.cons (guards_onTexts _ _) ?_))
  refine .cons (guards_onRead fun s arguments hlength => ?tail) ?_
  case tail =>
    have hstart : 0 < arguments.length := hlength ▸ Nat.one_pos
    exact (Access.Yields.argumentAt hstart).after (yields_tailFrom s _)
  refine .cons (guards_onRead fun s arguments hlength => ?slice) .nil
  case slice =>
    have hstart : 0 < arguments.length := hlength ▸ Nat.two_pos
    have hcount : 1 < arguments.length := hlength ▸ Nat.one_lt_two
    exact (Access.Yields.argumentAt hstart).after <|
      (Access.Yields.argumentAt hcount).after (yields_slice s _ _)

theorem guards_mapMethods : List.Forall₂ CheckedMethod.Guards Checked.mapMethods mapMethods := by
  refine .cons (guards_onRead fun _ _ _ => .pure _) ?_
  refine .cons (guards_onRead fun _ _ hlength => yields_textArgument hlength fun _ => .pure _) ?_
  refine .cons (guards_onRead fun _ _ hlength => yields_textArgument hlength fun _ => .pure _) ?_
  exact .cons (guards_onRead fun _ _ _ => .pure _) .nil

theorem guards_listMethods :
    List.Forall₂ CheckedMethod.Guards Checked.listMethods listMethods := by
  refine .cons (guards_onRead fun _ _ _ => .pure _) ?_
  refine .cons (guards_onRead fun items arguments hlength => ?get) .nil
  case get =>
    have hindex : 0 < arguments.length := hlength ▸ Nat.one_pos
    exact (Access.Yields.argumentAt hindex).after (.settled _)

theorem guards_dumpMethod : Checked.dumpMethod.Guards dumpMethod :=
  guards_onPayload fun host arguments hlength => by
    have hoptions : 0 < arguments.length := hlength ▸ Nat.one_pos
    refine (Access.Yields.argumentAt hoptions).after ?_
    cases argument arguments 0 <;> rfl

theorem guards_methods : List.Forall₂ CheckedMethod.Guards Checked.methods methods :=
  List.rel_append (List.rel_append (List.rel_append guards_textMethods guards_mapMethods)
    guards_listMethods) (.cons guards_dumpMethod .nil)

/-- Without its argument the member would reach past the arguments of the call. -/
example : (Checked.onTexts "Contains" Text.hasPart).action (.text "a") [] = none :=
  rfl

theorem exists_guard {i : Nat} {m : Method} (h : methods[i]? = some m) :
    ∃ g, Checked.methods[i]? = some g ∧ g.Guards m := by
  obtain ⟨hlt, rfl⟩ := List.getElem?_eq_some_iff.mp h
  have hlt' : i < Checked.methods.length := guards_methods.length_eq ▸ hlt
  exact ⟨Checked.methods[i], List.getElem?_eq_getElem hlt', guards_methods.get hlt' hlt⟩

end

/-- A call with all accesses of the invoked member spelled out; nothing if one is out of range. -/
def checkedCall (cache : ResolutionCache) (c : Call) : Option (Except MethodError Value) :=
  match (Registry.withBuiltins.resolve cache c.receiver c.name c.arguments).1 with
  | .error error => some (.error error)
  | .ok resolution =>
      match Checked.methods[resolution.method.index]? with
      | none => some (.error (.notFound c.receiver.typeName resolution.method.text ""))
      | some g =>
          let received := c.arguments.zipWith (fun value coercion => coercion.apply value)
            resolution.coercions
          (g.action c.receiver received).run.map
            fun result => result.mapError (.invocation g.typeName g.name)

theorem checkedCall_eq {cache : ResolutionCache} (h : cache.Sound .withBuiltins) (c : Call) :
    checkedCall cache c =
      some (Registry.withBuiltins.call cache c.receiver c.name c.arguments).1 := by
  have hr : Registry.withBuiltins.Consistent := Registry.consistent_defineAll methods
  obtain ⟨hresolved, -⟩ := Registry.resolve_sound hr h c
  simp only [checkedCall, Registry.call]
  generalize Registry.withBuiltins.resolve cache c.receiver c.name c.arguments = resolved
    at hresolved ⊢
  obtain ⟨result, after⟩ := resolved
  dsimp only at hresolved
  subst hresolved
  simp only [Call.cold]
  cases hselected : c.selected? .withBuiltins with
  | none => rfl
  | some resolution =>
      obtain ⟨m, hmem, -, harity, fit, hfit⟩ := Registry.of_select? hselected
      obtain ⟨hdeclared, -⟩ := Registry.mem_candidates_iff.mp hmem
      obtain ⟨g, hg, hguards⟩ := exists_guard hdeclared
      rw [List.length_map] at harity
      obtain ⟨hparameters, -, hreceived⟩ := (Parameter.receiveAll_of_fitAll? harity hfit).lengths_eq
      have haction := hguards.action c.receiver _ (hreceived.trans hparameters.symm)
      simp only [hg, Registry.invoke, Registry.method?_of_mem_candidates hmem, hguards.typeName,
        hguards.name]
      exact congrArg (Option.map _) haction

/-- No two members of a type share a name, up to case, and a number of parameters. -/
theorem signatures_nodup :
    (methods.map fun m => (m.typeName, Text.lower m.name, m.arity)).Nodup := by
  decide

theorem exists_call_eq {cache : ResolutionCache} (h : cache.Sound .withBuiltins) {m : Method}
    (hm : m ∈ methods) (c : Call) (htype : m.typeName = c.receiver.typeName)
    (hname : Text.lower m.name = Text.lower c.name) (harity : m.arity = c.arguments.length)
    (hfits : (Parameter.fitAll? m.parameters (c.arguments.map Value.tag)).isSome) :
    ∃ coercions received, Parameter.ReceiveAll m.parameters coercions c.arguments received ∧
      (Registry.withBuiltins.call cache c.receiver c.name c.arguments).1 =
        (m.action c.receiver received).mapError (.invocation m.typeName m.name) := by
  have hr : Registry.withBuiltins.Consistent := Registry.consistent_defineAll methods
  obtain ⟨resolution, hselected⟩ := Option.isSome_iff_exists.mp
    (Registry.selected?_isSome hm htype hname harity hfits)
  obtain ⟨i, hi, hdeclared, htype', hname', hall⟩ := Registry.receiveAll_of_selected? hselected
  have hsame : i.method = m := by
    refine List.inj_on_of_nodup_map signatures_nodup hdeclared hm ?_
    have harity' : i.method.arity = m.arity := hall.lengths_eq.1.trans harity.symm
    rw [htype', htype, hname', hname, harity']
  have hcall := Registry.withBuiltins.call_eq_invocation cache c
  rw [Registry.invocation?_of_sound hr h] at hcall
  have hinvocation : (c.selected? .withBuiltins).bind (Registry.withBuiltins.invocationBy? c) =
      some i := by
    rw [Registry.withBuiltins, hselected, Option.bind_some]
    exact hi
  rw [hinvocation] at hcall
  rw [hsame] at hall
  refine ⟨i.coercions, i.received, hall, hcall.trans ?_⟩
  rw [Invocation.result, hsame]

/-- The value is the integer `v`, of a kind that a parameter of 32 bits takes. -/
structure IsIndex (x : Value) (v : Int) : Prop where
  integer : ∃ kind, ∃ holds : kind.Holds v, x = .number (.integer kind v holds)
  fits : (indexParameter.fit? x.tag).isSome

def IsReceived (v : Int) (received : Value) : Prop :=
  ∃ holds : IntegerKind.int32.Holds v, received = .number (.integer .int32 v holds)

theorem IsIndex.isReceived {x : Value} {v : Int} (h : IsIndex x v) {coercion : Coercion}
    {received : Value} (hreceived : indexParameter.Receives coercion x received) :
    IsReceived v received := by
  obtain ⟨kind, holds, rfl⟩ := h.integer
  obtain ⟨v', holds', heq, hvalue⟩ := hreceived.integer _ _ rfl rfl
  cases heq
  exact ⟨holds', hvalue⟩

section

variable {arguments : List Value} {indices : List Int}
  (h : List.Forall₂ IsIndex arguments indices)
include h

theorem fitAll?_isSome :
    (Parameter.fitAll? (.replicate arguments.length indexParameter)
      (arguments.map Value.tag)).isSome := by
  induction h with
  | nil => rfl
  | cons hx _ ih =>
      obtain ⟨found, hfirst⟩ := Option.isSome_iff_exists.mp hx.fits
      obtain ⟨others, hothers⟩ := Option.isSome_iff_exists.mp ih
      simp only [List.length_cons, List.replicate_succ, List.map_cons, Parameter.fitAll?, hfirst,
        hothers]
      rfl

theorem isReceived_of_receiveAll {coercions : List Coercion} {received : List Value}
    (hall : Parameter.ReceiveAll (.replicate arguments.length indexParameter) coercions arguments
      received) : List.Forall₂ IsReceived indices received := by
  induction h generalizing coercions received with
  | nil =>
      cases hall
      exact .nil
  | cons hx _ ih =>
      cases hall with
      | cons hfirst hrest => exact .cons (hx.isReceived hfirst) (ih hrest)

theorem exists_call_indexed {cache : ResolutionCache} (hsound : cache.Sound .withBuiltins)
    {m : Method} (hm : m ∈ methods)
    (hparameters : m.parameters = .replicate arguments.length indexParameter)
    (receiver : Value) (htype : m.typeName = receiver.typeName) {name : String}
    (hname : Text.lower name = Text.lower m.name) :
    ∃ received, List.Forall₂ IsReceived indices received ∧
      (Registry.withBuiltins.call cache receiver name arguments).1 =
        (m.action receiver received).mapError (.invocation m.typeName m.name) := by
  have harity : m.arity = arguments.length := by
    rw [Method.arity, hparameters, List.length_replicate]
  have hfits := fitAll?_isSome h
  rw [← hparameters] at hfits
  obtain ⟨coercions, received, hall, hcall⟩ :=
    exists_call_eq hsound hm ⟨receiver, name, arguments⟩ htype hname.symm harity hfits
  rw [hparameters] at hall
  exact ⟨received, isReceived_of_receiveAll h hall, hcall⟩

end

theorem mapError_eq_ok_iff {ε ε' α : Type} {x : Except ε α} {f : ε → ε'} {t : α} :
    x.mapError f = .ok t ↔ x = .ok t := by
  cases x <;> simp [Except.mapError]

theorem bind_eq_ok_iff {α β : Type} {x : Except Failure α} {f : α → Except Failure β} {t : β} :
    (x >>= f) = .ok t ↔ ∃ value, x = .ok value ∧ f value = .ok t := by
  cases x with
  | error failure => exact ⟨nofun, nofun⟩
  | ok value => exact ⟨fun h => ⟨value, rfl, h⟩, fun ⟨_, rfl, h⟩ => h⟩

variable {v w : Int} {kind kind' : IntegerKind} {holds : kind.Holds v} {holds' : kind'.Holds w}

theorem indexOf_eq_ok_iff {greatest i : Nat} :
    indexOf (.number (.integer kind v holds)) greatest = .ok i ↔
      (0 ≤ v ∧ v ≤ greatest) ∧ v.toNat = i := by
  rw [indexOf]
  split
  · rename_i hrange
    simp [hrange]
  · rename_i hrange
    simp [hrange]

theorem tailFrom_eq_ok_iff {s : String} {t : Value} :
    tailFrom s (.number (.integer kind v holds)) = .ok t ↔
      (0 ≤ v ∧ v ≤ s.length) ∧ t = .text (String.ofList (s.toList.drop v.toNat)) := by
  simp only [tailFrom, bind_eq_ok_iff, indexOf_eq_ok_iff, String.length_toList]
  constructor
  · rintro ⟨_, ⟨hrange, rfl⟩, ⟨⟩⟩
    exact ⟨hrange, rfl⟩
  · rintro ⟨hrange, rfl⟩
    exact ⟨_, ⟨hrange, rfl⟩, rfl⟩

theorem slice_eq_ok_iff {s : String} {t : Value} :
    slice s (.number (.integer kind v holds)) (.number (.integer kind' w holds')) = .ok t ↔
      (0 ≤ v ∧ 0 ≤ w ∧ v + w ≤ s.length) ∧
        t = .text (String.ofList ((s.toList.drop v.toNat).take w.toNat)) := by
  simp only [slice, bind_eq_ok_iff, indexOf_eq_ok_iff, String.length_toList]
  constructor
  · rintro ⟨_, ⟨hstart, rfl⟩, _, ⟨hlength, rfl⟩, ⟨⟩⟩
    exact ⟨by omega, rfl⟩
  · rintro ⟨hrange, rfl⟩
    exact ⟨_, ⟨by omega, rfl⟩, _, ⟨by omega, rfl⟩, rfl⟩

theorem item_eq_ok_iff {items : List Value} {t : Value} :
    item items (.number (.integer kind v holds)) = .ok t ↔ 0 ≤ v ∧ items[v.toNat]? = some t := by
  simp only [item, bind_eq_ok_iff, indexOf_eq_ok_iff]
  constructor
  · rintro ⟨_, ⟨hrange, rfl⟩, hitem⟩
    cases hfound : items[v.toNat]? with
    | none =>
        rw [hfound] at hitem
        cases hitem
    | some found =>
        rw [hfound] at hitem
        cases hitem
        exact ⟨hrange.1, rfl⟩
  · rintro ⟨hnonneg, hitem⟩
    have hlt : v.toNat < items.length := (List.getElem?_eq_some_iff.mp hitem).1
    refine ⟨_, ⟨⟨hnonneg, by omega⟩, rfl⟩, ?_⟩
    rw [hitem]
    rfl

section

variable {cache : ResolutionCache} (hsound : cache.Sound .withBuiltins) {x y : Value}
  (hx : IsIndex x v) (hy : IsIndex y w) {name : String}
include hsound hx

theorem call_tailFrom (hname : Text.lower name = Text.lower "Substring") (s : String) (t : Value) :
    (Registry.withBuiltins.call cache (.text s) name [x]).1 = .ok t ↔
      (0 ≤ v ∧ v ≤ s.length) ∧ t = .text (String.ofList (s.toList.drop v.toNat)) := by
  let m : Method := onText "Substring" [indexParameter] fun s arguments =>
    tailFrom s (argument arguments 0)
  have hm : m ∈ methods := by simp [m, methods, textMethods]
  obtain ⟨received, hreceived, hcall⟩ :=
    exists_call_indexed (.cons hx .nil) hsound hm rfl (.text s) rfl hname
  obtain _ | ⟨⟨holds, rfl⟩, ⟨⟩⟩ := hreceived
  rw [hcall, mapError_eq_ok_iff]
  exact tailFrom_eq_ok_iff

theorem call_item (hname : Text.lower name = Text.lower "Get") (items : List Value) (t : Value) :
    (Registry.withBuiltins.call cache (.list items) name [x]).1 = .ok t ↔
      0 ≤ v ∧ items[v.toNat]? = some t := by
  let m : Method := onList "Get" [indexParameter] fun items arguments =>
    item items (argument arguments 0)
  have hm : m ∈ methods := by simp [m, methods, listMethods, indexParameter]
  obtain ⟨received, hreceived, hcall⟩ :=
    exists_call_indexed (.cons hx .nil) hsound hm rfl (.list items) rfl hname
  obtain _ | ⟨⟨holds, rfl⟩, ⟨⟩⟩ := hreceived
  rw [hcall, mapError_eq_ok_iff]
  exact item_eq_ok_iff

include hy

theorem call_slice (hname : Text.lower name = Text.lower "Substring") (s : String) (t : Value) :
    (Registry.withBuiltins.call cache (.text s) name [x, y]).1 = .ok t ↔
      (0 ≤ v ∧ 0 ≤ w ∧ v + w ≤ s.length) ∧
        t = .text (String.ofList ((s.toList.drop v.toNat).take w.toNat)) := by
  let m : Method := onText "Substring" [indexParameter, indexParameter] fun s arguments =>
    slice s (argument arguments 0) (argument arguments 1)
  have hm : m ∈ methods := by simp [m, methods, textMethods]
  obtain ⟨received, hreceived, hcall⟩ :=
    exists_call_indexed (.cons hx (.cons hy .nil)) hsound hm rfl (.text s) rfl hname
  obtain _ | ⟨⟨hstart, rfl⟩, _ | ⟨⟨hlength, rfl⟩, ⟨⟩⟩⟩ := hreceived
  rw [hcall, mapError_eq_ok_iff]
  exact slice_eq_ok_iff

end

/-- Whatever was called before, a call of a built-in member comes to a value or an error, and no
access on the way is out of range. The part of a text from an index on exists for the indices up to
its length; the part of a length from there exists as long as it ends within the text; the two parts
at an index make up the text. An item of a list is found at the indices of its items only. -/
theorem builtins_stay_in_range (capacity : Nat) (hpos : 0 < capacity) (visits : List Visit) :
    let cache := ((Shared.start capacity hpos).visitAll .withBuiltins visits).cache
    let call (receiver : Value) (name : String) (arguments : List Value) :=
      (Registry.withBuiltins.call cache receiver name arguments).1
    (∀ c : Call, checkedCall cache c = some (call c.receiver c.name c.arguments)) ∧
    (∀ name, Text.lower name = Text.lower "Substring" → ∀ x v, IsIndex x v → ∀ s : String,
      (∀ t, call (.text s) name [x] = .ok t ↔
        (0 ≤ v ∧ v ≤ s.length) ∧ t = .text (String.ofList (s.toList.drop v.toNat))) ∧
      (∀ y w, IsIndex y w → ∀ t, call (.text s) name [x, y] = .ok t ↔
        (0 ≤ v ∧ 0 ≤ w ∧ v + w ≤ s.length) ∧
          t = .text (String.ofList ((s.toList.drop v.toNat).take w.toNat))) ∧
      (0 ≤ v → v ≤ s.length → ∀ zero, IsIndex zero 0 → ∃ front back,
        call (.text s) name [zero, x] = .ok (.text front) ∧
        call (.text s) name [x] = .ok (.text back) ∧ front ++ back = s)) ∧
    ∀ name, Text.lower name = Text.lower "Get" → ∀ x v, IsIndex x v → ∀ items t,
      call (.list items) name [x] = .ok t ↔ 0 ≤ v ∧ items[v.toNat]? = some t := by
  intro cache call
  have hr : Registry.withBuiltins.Consistent := Registry.consistent_defineAll methods
  have hsound : cache.Sound .withBuiltins :=
    Shared.visitAll_sound hr (.empty .withBuiltins capacity hpos) visits
  refine ⟨checkedCall_eq hsound, ?_, ?_⟩
  · intro name hname x v hx s
    refine ⟨call_tailFrom hsound hx hname s, fun y w hy => call_slice hsound hx hy hname s, ?_⟩
    intro hleast hgreatest zero hzero
    refine ⟨.ofList (s.toList.take v.toNat), .ofList (s.toList.drop v.toNat), ?_, ?_, ?_⟩
    · exact (call_slice hsound hzero hx hname s _).mpr ⟨by omega, rfl⟩
    · exact (call_tailFrom hsound hx hname s _).mpr ⟨⟨hleast, hgreatest⟩, rfl⟩
    · rw [← String.ofList_append, List.take_append_drop, String.ofList_toList]
  · intro name hname x v hx items t
    exact call_item hsound hx hname items t

def octet (v : Int) (holds : IntegerKind.Holds { unsigned := true, width := .w8 } v) : Value :=
  .number (.integer { unsigned := true, width := .w8 } v holds)

def accentedVisits : List Visit :=
  [.lookUp 0 ⟨.text "abc", "substring", [octet 0 (by decide)]⟩, .bind 0]

theorem builtins_stay_in_range_accented :
    let cache := ((Shared.start 1 Nat.one_pos).visitAll .withBuiltins accentedVisits).cache
    let call (receiver : Value) (name : String) (arguments : List Value) :=
      (Registry.withBuiltins.call cache receiver name arguments).1
    let zero := octet 0 (by decide)
    let two := octet 2 (by decide)
    let six := octet 6 (by decide)
    0 < 1 ∧ Text.lower "SubString" = Text.lower "Substring" ∧ Text.lower "GET" = Text.lower "Get" ∧
    IsIndex zero 0 ∧ IsIndex two 2 ∧ IsIndex six 6 ∧
    (∃ front back, call (.text "héllo") "SubString" [zero, two] = .ok (.text front) ∧
      call (.text "héllo") "SubString" [two] = .ok (.text back) ∧ front ++ back = "héllo") ∧
    call (.text "héllo") "SubString" [two] = .ok (.text "llo") ∧
    (∀ t, call (.text "héllo") "SubString" [six] ≠ .ok t) ∧
    (∀ t, call (.list []) "GET" [zero] ≠ .ok t) ∧
    checkedCall cache ⟨.list [], "GET", [zero]⟩ = some (call (.list []) "GET" [zero]) := by
  intro cache call zero two six
  have hsubstring : Text.lower "SubString" = Text.lower "Substring" := by decide
  have hget : Text.lower "GET" = Text.lower "Get" := by decide
  have hzero : IsIndex zero 0 := ⟨⟨_, _, rfl⟩, by decide⟩
  have htwo : IsIndex two 2 := ⟨⟨_, _, rfl⟩, by decide⟩
  have hsix : IsIndex six 6 := ⟨⟨_, _, rfl⟩, by decide⟩
  obtain ⟨hchecked, htext, hlist⟩ := builtins_stay_in_range 1 Nat.one_pos accentedVisits
  obtain ⟨htail, -, hparts⟩ := htext "SubString" hsubstring two 2 htwo "héllo"
  obtain ⟨hpast, -, -⟩ := htext "SubString" hsubstring six 6 hsix "héllo"
  refine ⟨Nat.one_pos, hsubstring, hget, hzero, htwo, hsix, ?_, ?_, ?_, ?_, hchecked _⟩
  · exact hparts (by decide) (by decide) zero hzero
  · exact (htail _).mpr ⟨by decide, rfl⟩
  · intro t ht
    exact absurd ((hpast t).mp ht).1 (by decide)
  · intro t ht
    have hitem := ((hlist "GET" hget zero 0 hzero [] t).mp ht).2
    cases hitem

end Builtin

end Stencil
