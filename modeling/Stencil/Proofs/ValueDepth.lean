import Stencil.Proofs.Bindings
import Stencil.Proofs.BindingLog
import Stencil.Proofs.Declarations
import Stencil.Proofs.MemberBounds
import Stencil.Proofs.TreeBounds

/-! How deep the values nest that a render binds. An expression adds no more levels to those of the
values that it finds bound than its own tree has, and the built-in members add none. So each `#set`
adds as many as the parser admits at most, and what one binds the next one may go on from. -/

namespace Stencil

open Template

namespace Value

mutual

/-- How many lists and maps are around the innermost part of the value. -/
def depth : Value → Nat
  | .list items => depthOfItems items + 1
  | .map entries => depthOfEntries entries + 1
  | _ => 0

def depthOfItems : List Value → Nat
  | [] => 0
  | item :: rest => max item.depth (depthOfItems rest)

def depthOfEntries : List (String × Value) → Nat
  | [] => 0
  | (_, value) :: rest => max value.depth (depthOfEntries rest)

end

theorem depthOfItems_le_iff {items : List Value} {n : Nat} :
    depthOfItems items ≤ n ↔ ∀ item ∈ items, item.depth ≤ n := by
  induction items with
  | nil => simp [depthOfItems]
  | cons item rest ih => rw [depthOfItems, Nat.max_le, ih, List.forall_mem_cons]

theorem depthOfEntries_le_iff {entries : Entries Value} {n : Nat} :
    depthOfEntries entries ≤ n ↔ ∀ entry ∈ entries, entry.2.depth ≤ n := by
  induction entries with
  | nil => simp [depthOfEntries]
  | cons entry rest ih => rw [depthOfEntries, Nat.max_le, ih, List.forall_mem_cons]

theorem depth_list_le_iff {items : List Value} {n : Nat} :
    (list items).depth ≤ n + 1 ↔ ∀ item ∈ items, item.depth ≤ n := by
  rw [depth, Nat.add_le_add_iff_right, depthOfItems_le_iff]

theorem depth_map_le_iff {entries : Entries Value} {n : Nat} :
    (map entries).depth ≤ n + 1 ↔ ∀ entry ∈ entries, entry.2.depth ≤ n := by
  rw [depth, Nat.add_le_add_iff_right, depthOfEntries_le_iff]

theorem depth_item_lt {items : List Value} {item : Value} (h : item ∈ items) :
    item.depth < (list items).depth :=
  Nat.lt_succ_of_le (depthOfItems_le_iff.mp (Nat.le_refl _) item h)

theorem depth_entry_lt {entries : Entries Value} {entry : String × Value} (h : entry ∈ entries) :
    entry.2.depth < (map entries).depth :=
  Nat.lt_succ_of_le (depthOfEntries_le_iff.mp (Nat.le_refl _) entry h)

end Value

/-- What the member returns nests no deeper than the value that it is called on. -/
def Method.Shallow (m : Method) : Prop :=
  ∀ receiver arguments value, m.action receiver arguments = .ok value →
    value.depth ≤ receiver.depth

namespace Builtin

theorem shallow_onText {name : String} {parameters : List Parameter}
    {action : String → List Value → Except Failure Value}
    (h : ∀ s arguments value, action s arguments = .ok value → value.depth = 0) :
    (onText name parameters action).Shallow := by
  intro receiver arguments value haction
  obtain ⟨s, -, hvalue⟩ := bind_eq_ok_iff.mp haction
  exact (h s arguments value hvalue).trans_le (Nat.zero_le _)

theorem shallow_onMap {name : String} {parameters : List Parameter}
    {action : Entries Value → List Value → Except Failure Value}
    (h : ∀ entries arguments value, action entries arguments = .ok value →
      value.depth ≤ (Value.map entries).depth) :
    (onMap name parameters action).Shallow := by
  intro receiver arguments value haction
  obtain ⟨entries, hentries, hvalue⟩ := bind_eq_ok_iff.mp haction
  unfold entriesOf at hentries
  split at hentries
  · cases hentries
    exact h _ arguments value hvalue
  · cases hentries

theorem shallow_onList {name : String} {parameters : List Parameter}
    {action : List Value → List Value → Except Failure Value}
    (h : ∀ items arguments value, action items arguments = .ok value →
      value.depth ≤ (Value.list items).depth) :
    (onList name parameters action).Shallow := by
  intro receiver arguments value haction
  obtain ⟨items, hitems, hvalue⟩ := bind_eq_ok_iff.mp haction
  unfold itemsOf at hitems
  split at hitems
  · cases hitems
    exact h _ arguments value hvalue
  · cases hitems

theorem shallow_onTexts (name : String) (test : List Char → List Char → Bool) :
    (onTexts name test).Shallow := by
  refine shallow_onText fun s arguments value h => ?_
  obtain ⟨_, -, ⟨⟩⟩ := bind_eq_ok_iff.mp h
  rfl

theorem shallow_textMethods : ∀ m ∈ textMethods, m.Shallow := by
  intro m hm
  simp only [textMethods, List.mem_cons, List.not_mem_nil, or_false] at hm
  rcases hm with rfl | rfl | rfl | rfl | rfl | rfl | rfl | rfl | rfl
  iterate 4
    · exact shallow_onText fun _ _ _ h => by cases h; rfl
  iterate 3
    · exact shallow_onTexts _ _
  · refine shallow_onText fun s arguments value h => ?_
    obtain ⟨_, -, ⟨⟩⟩ := bind_eq_ok_iff.mp h
    rfl
  · refine shallow_onText fun s arguments value h => ?_
    obtain ⟨_, -, h⟩ := bind_eq_ok_iff.mp h
    obtain ⟨_, -, ⟨⟩⟩ := bind_eq_ok_iff.mp h
    rfl

theorem shallow_mapMethods : ∀ m ∈ mapMethods, m.Shallow := by
  intro m hm
  simp only [mapMethods, List.mem_cons, List.not_mem_nil, or_false] at hm
  rcases hm with rfl | rfl | rfl | rfl
  · refine shallow_onMap fun entries arguments value h => ?_
    cases h
    exact Nat.zero_le _
  · refine shallow_onMap fun entries arguments value h => ?_
    obtain ⟨_, -, ⟨⟩⟩ := bind_eq_ok_iff.mp h
    exact Nat.zero_le _
  · refine shallow_onMap fun entries arguments value h => ?_
    obtain ⟨key, -, ⟨⟩⟩ := bind_eq_ok_iff.mp h
    cases hfind : entries.find? key with
    | none => exact Nat.zero_le _
    | some found => exact Nat.le_of_lt (Value.depth_entry_lt (Entries.mem_of_find? hfind))
  · refine shallow_onMap fun entries arguments value h => ?_
    cases h
    have hkeys : (Value.list (entries.map (.text ·.1))).depth ≤ 0 + 1 := by
      refine Value.depth_list_le_iff.mpr fun item hitem => ?_
      obtain ⟨entry, -, rfl⟩ := List.mem_map.mp hitem
      exact Nat.le_refl _
    exact hkeys.trans (Nat.succ_le_succ (Nat.zero_le _))

theorem shallow_listMethods : ∀ m ∈ listMethods, m.Shallow := by
  intro m hm
  simp only [listMethods, List.mem_cons, List.not_mem_nil, or_false] at hm
  rcases hm with rfl | rfl
  · refine shallow_onList fun items arguments value h => ?_
    cases h
    exact Nat.zero_le _
  · refine shallow_onList fun items arguments value h => ?_
    obtain ⟨i, -, h⟩ := bind_eq_ok_iff.mp h
    split at h
    · rename_i found hfound
      cases h
      exact Nat.le_of_lt (Value.depth_item_lt (List.mem_of_getElem? hfound))
    · cases h

theorem shallow_dumpMethod : dumpMethod.Shallow := by
  intro receiver arguments value h
  simp only [dumpMethod, Method.onPayload] at h
  split at h
  · split at h
    · split at h
      · cases h
        exact Nat.zero_le _
      · cases h
      · cases h
    · cases h
  · cases h

theorem shallow_methods : ∀ m ∈ methods, m.Shallow := by
  simp only [methods, List.forall_mem_append, List.forall_mem_singleton]
  exact ⟨⟨⟨shallow_textMethods, shallow_mapMethods⟩, shallow_listMethods⟩, shallow_dumpMethod⟩

end Builtin

/-- The members are those that come without the host's doing, or others that add no levels. -/
def Registry.Shallow (r : Registry) : Prop :=
  ∀ m ∈ r.methods, m.Shallow

theorem Registry.Shallow.call {r : Registry} (hr : r.Shallow) {cache : ResolutionCache}
    {receiver value : Value} {name : String} {arguments : List Value}
    (h : (r.call cache receiver name arguments).1 = .ok value) : value.depth ≤ receiver.depth := by
  simp only [Registry.call] at h
  split at h
  · simp only [Registry.invoke] at h
    split at h
    · cases h
    · rename_i m hm
      exact hr m (Array.mem_of_getElem? hm) _ _ _ (Builtin.mapError_eq_ok_iff.mp h)
  · cases h

def Steps.Yields {σ α : Type} (x : Steps σ α) (P : α → Prop) : Prop :=
  ∀ s value, (x s).1 = .ok value → P value

namespace Steps.Yields

variable {σ α β : Type} {P : α → Prop} {Q : β → Prop}

theorem pure {value : α} (h : P value) : Yields (Pure.pure value : Steps σ α) P := by
  intro s found heq
  cases heq
  exact h

theorem throw (error : EvalError) : Yields (MonadExcept.throw error : Steps σ α) P :=
  fun _ _ heq => nomatch heq

theorem bind {x : Steps σ α} {f : α → Steps σ β} (h : Yields x P)
    (hnext : ∀ value, P value → Yields (f value) Q) : Yields (x >>= f) Q := by
  intro s found heq
  have hfirst := h s
  rw [Steps.bind_apply] at heq
  generalize x s = outcome at hfirst heq
  obtain ⟨error | value, after⟩ := outcome
  · cases heq
  · exact hnext value (hfirst value rfl) after found heq

theorem call {setting : Setting} (hr : setting.registry.Shallow) (receiver : Value)
    (name : String) (arguments : List Value) :
    Yields (Eval.call setting receiver name arguments) (·.depth ≤ receiver.depth) := by
  intro scope value h
  exact hr.call (Builtin.mapError_eq_ok_iff.mp h)

theorem call? {setting : Setting} (hr : setting.registry.Shallow) (receiver : Value)
    (name : String) :
    Yields (Eval.call? setting receiver name) fun found =>
      ∀ value ∈ found, value.depth ≤ receiver.depth := by
  intro scope found h
  have hcall := call hr receiver name [] scope
  simp only [Eval.call?] at h
  generalize Eval.call setting receiver name [] scope = outcome at hcall h
  obtain ⟨result, after⟩ := outcome
  split at h
  · rename_i heq
    cases heq
    cases h
    exact fun _ hmem => Option.mem_some_iff.mp hmem ▸ hcall _ rfl
  · split at h
    · cases h
      intro value hmem
      cases hmem
    · cases h
  · cases h

theorem property {setting : Setting} (hr : setting.registry.Shallow) (receiver : Value)
    (name : String) :
    Yields (Eval.property setting receiver name) (·.depth ≤ receiver.depth) := by
  simp only [Eval.property]
  split
  · rename_i value hentry
    refine pure ?_
    split at hentry
    · exact Nat.le_of_lt (Value.depth_entry_lt (Entries.mem_of_find? hentry))
    · cases hentry
  · refine (call? hr receiver name).bind fun found hfound => pure ?_
    cases found with
    | none => exact Nat.zero_le _
    | some value => exact hfound value rfl

theorem arithmetic (op : ArithmeticOperator) (left right : Value) (n : Nat) :
    Yields (Eval.arithmetic op left right) (·.depth ≤ n) := by
  unfold Eval.arithmetic
  split
  · exact pure (Nat.zero_le n)
  · exact pure (Nat.zero_le n)
  · rename_i l r
    cases Number.apply op l r <;> exact pure (Nat.zero_le n)
  · exact throw _

theorem negate (value : Value) (n : Nat) : Yields (Eval.negate value) (·.depth ≤ n) := by
  unfold Eval.negate
  split
  · exact pure (Nat.zero_le n)
  · exact pure (Nat.zero_le n)
  · exact throw _

theorem quoted (setting : Setting) (quote : Option Char) {value : Value} {n : Nat}
    (h : value.depth ≤ n) : Yields (Eval.quoted setting quote value) (·.depth ≤ n) := by
  unfold Eval.quoted
  split
  · exact pure (Nat.zero_le n)
  · exact pure h
  · exact bind (P := fun _ => True) (fun _ _ _ => trivial) fun _ _ => pure (Nat.zero_le n)

end Steps.Yields

def Context.DepthAtMost (n : Nat) (c : Context) : Prop :=
  ∀ name value, c.get? name = some value → value.depth ≤ n

theorem Context.DepthAtMost.put {n m : Nat} {c : Context} (h : c.DepthAtMost n) {value : Value}
    (hvalue : value.depth ≤ m) (hle : n ≤ m) (name : String) :
    (c.put name value).DepthAtMost m := by
  intro other found hfound
  rw [get?_put] at hfound
  split at hfound
  · cases hfound
    exact hvalue
  · exact (h other found hfound).trans hle

/-- Each binding may nest as many levels deeper than all before it as the parser admits. -/
inductive Climbs : Nat → List (String × Value) → Prop where
  | nil (n : Nat) : Climbs n []
  | cons {n : Nat} {name : String} {value : Value} {rest : List (String × Value)}
      (hvalue : value.depth ≤ n + maxNesting) (h : Climbs (n + maxNesting) rest) :
      Climbs n ((name, value) :: rest)

namespace Climbs

variable {n : Nat} {bound more : List (String × Value)}

theorem append (h : Climbs n bound) (hmore : Climbs (n + maxNesting * bound.length) more) :
    Climbs n (bound ++ more) := by
  induction h with
  | nil n => exact hmore
  | cons hvalue _ ih =>
      refine .cons hvalue (ih ?_)
      rwa [Nat.add_assoc, Nat.add_comm maxNesting, ← Nat.mul_succ]

theorem depth_le (h : Climbs n bound) {k : Nat} {name : String} {value : Value}
    (hk : bound[k]? = some (name, value)) : value.depth ≤ n + maxNesting * (k + 1) := by
  induction h generalizing k with
  | nil => cases hk
  | cons hvalue _ ih =>
      cases k with
      | zero =>
          cases hk
          exact hvalue
      | succ k =>
          have hrest := ih hk
          rw [Nat.mul_succ]
          omega

theorem putAll (h : Climbs n bound) {c : Context} (hc : c.DepthAtMost n) :
    (c.putAll bound).DepthAtMost (n + maxNesting * bound.length) := by
  induction h generalizing c with
  | nil => exact hc
  | @cons n name value rest hvalue _ ih =>
      have hrest := ih (hc.put hvalue (Nat.le_add_right _ _) name)
      rwa [Nat.add_assoc, Nat.add_comm maxNesting, ← Nat.mul_succ] at hrest

end Climbs

/-- From a context whose values nest at most `n` levels deep, the steps bind values that climb from
there, and `P` holds of what they come to and of the depth that the context may have by then. -/
structure Grows {σ α : Type} [HasContext σ] (n : Nat) (x : Steps σ α) (log : Log σ)
    (P : Nat → α → Prop) : Prop where
  climbs : ∀ s, (context s).DepthAtMost n → Climbs n (log s)
  value : ∀ s, (context s).DepthAtMost n → ∀ value, (x s).1 = .ok value →
    P (n + maxNesting * (log s).length) value

namespace Grows

variable {σ α β : Type} [HasContext σ] {n : Nat} {P P' : Nat → α → Prop} {Q : Nat → β → Prop}
  {x : Steps σ α} {log : Log σ}

theorem silent (h : Steps.Yields x (P n)) : Grows n x .nothing P where
  climbs _ _ := .nil n
  value s _ := h s

theorem unbound : Grows n x .nothing fun _ _ => True :=
  silent fun _ _ _ => trivial

theorem pure {value : α} (h : P n value) : Grows n (Pure.pure value : Steps σ α) .nothing P :=
  silent (.pure h)

theorem mono (h : Grows n x log P) (hle : ∀ m value, n ≤ m → P m value → P' m value) :
    Grows n x log P' where
  climbs := h.climbs
  value s hs value hvalue := hle _ _ (Nat.le_add_right _ _) (h.value s hs value hvalue)

theorem andThen {f : α → Steps σ β} {next : α → Log σ} (hlog : Logged x log)
    (h : Grows n x log P)
    (hnext : ∀ m value, n ≤ m → P m value → Grows m (f value) (next value) Q) :
    Grows n (x >>= f) (log.andThen x next) Q := by
  have hstep (s : σ) (hs : (context s).DepthAtMost n) (value : α) (after : σ)
      (hx : x s = (.ok value, after)) :
      (context after).DepthAtMost (n + maxNesting * (log s).length) ∧
        Grows (n + maxNesting * (log s).length) (f value) (next value) Q := by
    have hbound := (h.climbs s hs).putAll hs
    rw [← hlog s, hx] at hbound
    exact ⟨hbound, hnext _ _ (Nat.le_add_right _ _) (h.value s hs value (by rw [hx]))⟩
  constructor
  · intro s hs
    simp only [Log.andThen]
    split
    · rename_i value after hx
      obtain ⟨hafter, hrest⟩ := hstep s hs value after hx
      exact (h.climbs s hs).append (hrest.climbs after hafter)
    · rw [List.append_nil]
      exact h.climbs s hs
  · intro s hs found hfound
    rw [Steps.bind_apply] at hfound
    cases hx : x s with
    | mk result after =>
        rw [hx] at hfound
        cases result with
        | error error => cases hfound
        | ok value =>
            obtain ⟨hafter, hrest⟩ := hstep s hs value after hx
            have hvalue := hrest.value after hafter found hfound
            simp only [Log.andThen, hx, List.length_append, Nat.mul_add, ← Nat.add_assoc]
            exact hvalue

theorem last {f : α → Steps σ β} (h : Grows n x log P)
    (hnext : ∀ m value, n ≤ m → P m value → Steps.Yields (f value) (Q m)) :
    Grows n (x >>= f) log Q where
  climbs := h.climbs
  value s hs found hfound := by
    have hvalue := h.value s hs
    rw [Steps.bind_apply] at hfound
    generalize x s = outcome at hvalue hfound
    obtain ⟨error | value, after⟩ := outcome
    · cases hfound
    · exact hnext _ value (Nat.le_add_right _ _) (hvalue value rfl) after found hfound

theorem ite {y : Steps σ α} {log' : Log σ} {c : Prop} [Decidable c] (h : Grows n x log P)
    (h' : Grows n y log' P) : Grows n (if c then x else y) (if c then log else log') P := by
  split
  · exact h
  · exact h'

theorem lookup (name : String) : Grows n (Eval.lookup name) .nothing fun m found =>
    ∀ value ∈ found, value.depth ≤ m where
  climbs _ _ := .nil n
  value scope hscope found hfound := by
    cases hfound
    exact hscope name

theorem bind (name : String) {value : Value} (h : value.depth ≤ n + maxNesting) :
    Grows n (Rendering.bind name value) (fun _ => [(name, value)]) fun _ _ => True where
  climbs _ _ := .cons h (.nil _)
  value _ _ _ _ := trivial

theorem absorbing {x : Eval Value} {log : Log Scope} {P : Nat → Value → Prop}
    (h : Grows n x log P) (hnull : ∀ m, P m .null) :
    Grows n (Rendering.absorbing x) log.inScope P where
  climbs p hp := h.climbs p.scope hp
  value p hp value hvalue := by
    have hfound := h.value p.scope hp
    simp only [Rendering.absorbing] at hvalue
    generalize x p.scope = outcome at hfound hvalue
    obtain ⟨error | found, scope⟩ := outcome
    · dsimp only at hvalue
      split at hvalue
      · cases hvalue
        exact hnull _
      · cases hvalue
    · cases hvalue
      exact hfound _ rfl

theorem ofRendering {x : Rendering Unit} {log : Log Progress} {P : Nat → Unit → Prop}
    (h : Grows n x log P) : Grows n (Eval.ofRendering x) log.fromStart fun _ _ => True where
  climbs scope hscope := h.climbs (.start scope) hscope
  value _ _ _ _ := trivial

end Grows

/-- All paths downwards from the part take fewer counted steps than `levels`. The parser admits no
longer ones. -/
structure Template.TreePart.Within (levels : Nat) (part : TreePart) : Prop where
  admitted : levels ≤ maxNesting + 1
  steps_lt {steps parts : Nat} : Path part steps parts → steps < levels

namespace Template.TreePart.Within

variable {levels : Nat} {part below : TreePart} {counted : Bool}

theorem child (h : Within levels part) (hchild : Child part counted below) :
    Within (levels - counted.toNat) below where
  admitted := (Nat.sub_le _ _).trans h.admitted
  steps_lt hpath := Nat.lt_sub_of_add_lt (h.steps_lt (.down hchild hpath))

theorem pos (h : Within levels part) : 0 < levels :=
  h.steps_lt (.here part)

end Template.TreePart.Within

namespace Grows

open TreePart (Within)

variable {setting : Setting}

mutual

theorem expr (hr : setting.registry.Shallow) :
    (e : Expr) → {levels : Nat} → Within levels (.expr e) → (n : Nat) →
      Grows n (e.eval setting) (e.log setting) fun m value => value.depth ≤ m + levels
  | .literal literal, _, _, n => by
      simp only [Expr.eval, Expr.log]
      cases literal <;> exact pure (Nat.zero_le _)
  | .reference r, levels, h, n => by
      simp only [Expr.eval, Expr.log]
      exact (reference hr r (h.child (.exprReference r)) n).mono fun m value _ hvalue =>
        hvalue.trans (Nat.le_add_right m levels)
  | .interpolated nodes, levels, h, n => by
      simp only [Expr.eval, Expr.log]
      have hnodes : ∀ node ∈ nodes, Within levels (.node node) := fun node hnode =>
        h.child (.interpolated hnode)
      exact (renderNodes hr .unlimited nodes hnodes n).ofRendering.last fun _ _ _ _ =>
        .pure (Nat.zero_le _)
  | .map entries, levels, h, n => by
      simp only [Expr.eval, Expr.log]
      obtain ⟨inside, rfl⟩ := Nat.exists_eq_add_one.mpr h.pos
      have hentries : ∀ entry ∈ entries, Within (inside + 1) (.entry entry) := fun entry hentry =>
        h.child (.mapEntry hentry)
      exact (mapEntries hr entries hentries n (List.forall_mem_nil _)).last fun m found _ hfound =>
        .pure (Value.depth_map_le_iff.mpr hfound)
  | .list items, levels, h, n => by
      simp only [Expr.eval, Expr.log]
      obtain ⟨inside, rfl⟩ := Nat.exists_eq_add_one.mpr h.pos
      have hitems : ∀ e ∈ items, Within inside (.expr e) := fun e he => h.child (.item he)
      exact (all hr items hitems n).last fun m found _ hfound =>
        .pure (Value.depth_list_le_iff.mpr hfound)
  | .arithmetic op left right, levels, h, n => by
      simp only [Expr.eval, Expr.log]
      have hleft := expr hr left (h.child (.arithmeticLeft op left right)) n
      refine hleft.andThen (.expr setting left) fun m _ _ _ => ?_
      have hright := expr hr right (h.child (.arithmeticRight op left right)) m
      exact hright.last fun _ _ _ _ => .arithmetic op _ _ _
  | .comparison op left right, levels, h, n => by
      simp only [Expr.eval, Expr.log]
      have hleft := expr hr left (h.child (.comparisonLeft op left right)) n
      refine hleft.andThen (.expr setting left) fun m _ _ _ => ?_
      have hright := expr hr right (h.child (.comparisonRight op left right)) m
      exact hright.last fun _ _ _ _ => .pure (Nat.zero_le _)
  | .logical .and left right, levels, h, n => by
      simp only [Expr.eval, Expr.log]
      have hleft := expr hr left (h.child (.logicalLeft .and left right)) n
      refine hleft.andThen (.expr setting left) fun m _ _ _ => ?_
      have hright := expr hr right (h.child (.logicalRight .and left right)) m
      exact ite (hright.last fun _ _ _ _ => .pure (Nat.zero_le _)) (pure (Nat.zero_le _))
  | .logical .or left right, levels, h, n => by
      simp only [Expr.eval, Expr.log]
      have hleft := expr hr left (h.child (.logicalLeft .or left right)) n
      refine hleft.andThen (.expr setting left) fun m _ _ _ => ?_
      have hright := expr hr right (h.child (.logicalRight .or left right)) m
      exact ite (pure (Nat.zero_le _)) (hright.last fun _ _ _ _ => .pure (Nat.zero_le _))
  | .not operand, levels, h, n => by
      simp only [Expr.eval, Expr.log]
      have hoperand := expr hr operand (h.child (.notOperand operand)) n
      exact hoperand.last fun _ _ _ _ => .pure (Nat.zero_le _)
  | .negate operand, levels, h, n => by
      simp only [Expr.eval, Expr.log]
      have hoperand := expr hr operand (h.child (.negateOperand operand)) n
      exact hoperand.last fun _ value _ _ => .negate value _

theorem all (hr : setting.registry.Shallow) :
    (items : List Expr) → {levels : Nat} → (∀ e ∈ items, Within levels (.expr e)) → (n : Nat) →
      Grows n (evalAll setting items) (logAll setting items) fun m values =>
        ∀ value ∈ values, value.depth ≤ m + levels
  | [], _, _, n => by
      simp only [evalAll, logAll]
      exact pure (List.forall_mem_nil _)
  | item :: rest, levels, h, n => by
      simp only [evalAll, logAll]
      obtain ⟨hitem, hrest⟩ := List.forall_mem_cons.mp h
      refine (expr hr item hitem n).andThen (.expr setting item) fun m value _ hvalue => ?_
      refine (all hr rest hrest m).last fun m' values hle hvalues => .pure ?_
      exact List.forall_mem_cons.mpr ⟨hvalue.trans (Nat.add_le_add_right hle _), hvalues⟩

/-- What a path yields nests no deeper than what it starts from. -/
theorem reference (hr : setting.registry.Shallow) :
    (r : Reference) → {levels : Nat} → Within levels (.reference r) → (n : Nat) →
      Grows n (r.eval setting) (r.log setting) fun m value => value.depth ≤ m
  | .mk quiet root path literal, levels, h, n => by
      simp only [Reference.eval, Reference.log]
      have hpath : ∀ a ∈ path, Within levels (.accessor a) := fun a ha =>
        h.child (.accessor quiet root literal ha)
      refine (lookup root).andThen (.lookup root) fun m found _ hfound => ?_
      cases found with
      | none => exact pure (Nat.zero_le m)
      | some value => exact follow hr path hpath m (hfound value rfl)

theorem follow (hr : setting.registry.Shallow) : (path : List Accessor) → {levels : Nat} →
    (∀ a ∈ path, Within levels (.accessor a)) → (n : Nat) → {current : Value} → current.depth ≤ n →
      Grows n (Template.follow setting path current) (logFollow setting path current)
        fun m value => value.depth ≤ m
  | [], _, _, n, current, hcurrent => by
      simp only [Template.follow, logFollow]
      exact pure hcurrent
  | .property name :: rest, levels, h, n, current, hcurrent => by
      simp only [Template.follow, logFollow]
      obtain ⟨-, hrest⟩ := List.forall_mem_cons.mp h
      refine ite (pure (Nat.zero_le n)) ?_
      have hproperty := Steps.Yields.property hr current name
      refine (silent (P := fun _ => _) hproperty).andThen (.property setting current name)
        fun m value hle hvalue => ?_
      exact follow hr rest hrest m (hvalue.trans (hcurrent.trans hle))
  | .method name arguments :: rest, levels, h, n, current, hcurrent => by
      simp only [Template.follow, logFollow]
      obtain ⟨hmethod, hrest⟩ := List.forall_mem_cons.mp h
      have harguments : ∀ e ∈ arguments, Within (levels - 1) (.expr e) := fun e he =>
        hmethod.child (.argument name he)
      refine ite (pure (Nat.zero_le n)) ?_
      refine (all hr arguments harguments n).andThen (.all setting arguments)
        fun m found hle _ => ?_
      have hcall := Steps.Yields.call hr current name found
      refine (silent (P := fun _ => _) hcall).andThen (.call setting current name found)
        fun m' value hle' hvalue => ?_
      exact follow hr rest hrest m' (hvalue.trans (hcurrent.trans (hle.trans hle')))

theorem mapEntries (hr : setting.registry.Shallow) : (entries : List MapEntry) → {levels : Nat} →
    (∀ entry ∈ entries, Within (levels + 1) (.entry entry)) → (n : Nat) → {done : Entries Value} →
      (∀ entry ∈ done, entry.2.depth ≤ n + levels) →
        Grows n (evalEntries setting done entries) (logEntries setting entries) fun m found =>
          ∀ entry ∈ found, entry.2.depth ≤ m + levels
  | [], _, _, n, done, hdone => by
      simp only [evalEntries, logEntries]
      exact pure hdone
  | .mk key value :: rest, levels, h, n, done, hdone => by
      simp only [evalEntries, logEntries]
      obtain ⟨hentry, hrest⟩ := List.forall_mem_cons.mp h
      have hvalue : Within (bif value.isMap then levels else levels + 1) (.value value) := by
        have hchild := hentry.child (.entryValue key value)
        cases hmap : value.isMap <;> rwa [hmap] at hchild
      refine (mapValue hr value hvalue n).andThen (.mapValue setting value)
        fun m found hle hfound => ?_
      have hput : ∀ entry ∈ done.put key found, entry.2.depth ≤ m + levels :=
        Entries.forall_mem_put (P := (·.depth ≤ m + levels)) hfound fun entry hmem =>
          (hdone entry hmem).trans (Nat.add_le_add_right hle levels)
      exact mapEntries hr rest hrest m hput

theorem mapValue (hr : setting.registry.Shallow) : (value : MapValue) → {levels : Nat} →
    Within (bif value.isMap then levels else levels + 1) (.value value) → (n : Nat) →
      Grows n (value.eval setting) (value.log setting) fun m found => found.depth ≤ m + levels
  | .text nodes, levels, h, n => by
      simp only [MapValue.eval, MapValue.log]
      have hnodes : ∀ node ∈ nodes, Within (levels + 1) (.node node) := fun node hnode =>
        h.child (.textNode hnode)
      exact (renderNodes hr .unlimited nodes hnodes n).ofRendering.last fun _ _ _ _ =>
        .pure (Nat.zero_le _)
  | .number _, _, _, _ => by
      simp only [MapValue.eval, MapValue.log]
      exact pure (Nat.zero_le _)
  | .boolean _, _, _, _ => by
      simp only [MapValue.eval, MapValue.log]
      exact pure (Nat.zero_le _)
  | .reference r quote, levels, h, n => by
      simp only [MapValue.eval, MapValue.log]
      exact (reference hr r (h.child (.valueReference r quote)) n).last fun m value _ hvalue =>
        .quoted setting quote (hvalue.trans (Nat.le_add_right m levels))
  | .map entries, levels, h, n => by
      simp only [MapValue.eval, MapValue.log]
      obtain ⟨inside, rfl⟩ := Nat.exists_eq_add_one.mpr h.pos
      have hentries : ∀ entry ∈ entries, Within (inside + 1) (.entry entry) := fun entry hentry =>
        h.child (.nestedEntry hentry)
      exact (mapEntries hr entries hentries n (List.forall_mem_nil _)).last fun m found _ hfound =>
        .pure (Value.depth_map_le_iff.mpr hfound)

theorem renderNodes (hr : setting.registry.Shallow) (sink : Sink) :
    (nodes : List Node) → {levels : Nat} → (∀ node ∈ nodes, Within levels (.node node)) →
      (n : Nat) → Grows n (Template.renderNodes setting sink nodes) (logNodes setting sink nodes)
        fun _ _ => True
  | [], _, _, _ => by
      simp only [Template.renderNodes, logNodes]
      exact pure trivial
  | .text content :: rest, levels, h, n => by
      simp only [Template.renderNodes, logNodes]
      obtain ⟨-, hrest⟩ := List.forall_mem_cons.mp h
      exact unbound.andThen (.write sink content) fun m _ _ _ => renderNodes hr sink rest hrest m
  | .reference r :: rest, levels, h, n => by
      simp only [Template.renderNodes, logNodes]
      obtain ⟨hnode, hrest⟩ := List.forall_mem_cons.mp h
      have hvalue := (reference hr r (hnode.child (.nodeReference r)) n).absorbing Nat.zero_le
      refine hvalue.andThen (.absorbing (.reference setting r)) fun m found _ _ => ?_
      exact unbound.andThen (.writeReference setting sink r found) fun m _ _ _ =>
        renderNodes hr sink rest hrest m
  | .set target value :: rest, levels, h, n => by
      simp only [Template.renderNodes, logNodes]
      obtain ⟨hnode, hrest⟩ := List.forall_mem_cons.mp h
      have hvalue := (expr hr value (hnode.child (.setValue target value)) n).absorbing fun _ =>
        Nat.zero_le _
      refine hvalue.andThen (.absorbing (.expr setting value)) fun m found _ hfound => ?_
      have hadmitted : levels - 1 ≤ maxNesting := Nat.sub_le_of_le_add hnode.admitted
      have hbound : found.depth ≤ m + maxNesting :=
        hfound.trans (Nat.add_le_add_left hadmitted m)
      exact (bind target hbound).andThen (.bind target found) fun m _ _ _ =>
        renderNodes hr sink rest hrest m
  | .conditional branches none :: rest, levels, h, n => by
      simp only [Template.renderNodes, logNodes]
      obtain ⟨hnode, hrest⟩ := List.forall_mem_cons.mp h
      have hbranches : ∀ b ∈ branches, Within (levels - 1) (.branch b) := fun b hb =>
        hnode.child (.block none hb)
      exact (renderBranches hr sink branches hbranches n).andThen
        (.renderBranches setting sink branches) fun m _ _ _ => renderNodes hr sink rest hrest m
  | .conditional branches (some otherwise) :: rest, levels, h, n => by
      simp only [Template.renderNodes, logNodes]
      obtain ⟨hnode, hrest⟩ := List.forall_mem_cons.mp h
      have hbranches : ∀ b ∈ branches, Within (levels - 1) (.branch b) := fun b hb =>
        hnode.child (.block (some otherwise) hb)
      have hotherwise : ∀ node ∈ otherwise, Within (levels - 1) (.node node) := fun node hmem =>
        hnode.child (.otherwise branches hmem)
      refine (renderBranches hr sink branches hbranches n).andThen
        (.renderBranches setting sink branches) fun m _ _ _ =>
          ite ?_ (renderNodes hr sink rest hrest m)
      exact (renderNodes hr sink otherwise hotherwise m).andThen
        (.renderNodes setting sink otherwise) fun m _ _ _ => renderNodes hr sink rest hrest m

theorem renderBranches (hr : setting.registry.Shallow) (sink : Sink) :
    (branches : List Branch) → {levels : Nat} → (∀ b ∈ branches, Within levels (.branch b)) →
      (n : Nat) → Grows n (Template.renderBranches setting sink branches)
        (logBranches setting sink branches) fun _ _ => True
  | [], _, _, _ => by
      simp only [Template.renderBranches, logBranches]
      exact pure trivial
  | .mk condition body :: rest, levels, h, n => by
      simp only [Template.renderBranches, logBranches]
      obtain ⟨hbranch, hrest⟩ := List.forall_mem_cons.mp h
      have hbody : ∀ node ∈ body, Within levels (.node node) := fun node hnode =>
        hbranch.child (.body condition hnode)
      have htest := (expr hr condition (hbranch.child (.condition condition body)) n).absorbing
        fun _ => Nat.zero_le _
      refine htest.andThen (.absorbing (.expr setting condition)) fun m _ _ _ => ?_
      exact ite ((renderNodes hr sink body hbody m).last fun _ _ _ _ => .pure trivial)
        (renderBranches hr sink rest hrest m)

end

end Grows

/-- All that the render binds, in the order in which it does. -/
def Engine.bound (e : Engine) (sink : Sink) (template : Template) (context : Context) :
    List (String × Value) :=
  logNodes e.setting sink template.nodes (.start { context, cache := e.cache })

theorem Engine.context_render (e : Engine) (sink : Sink) (template : Template)
    (context : Context) :
    (e.render sink template context).context = context.putAll (e.bound sink template context) :=
  Logged.renderNodes e.setting sink template.nodes (.start { context, cache := e.cache })

theorem Template.within_of_parse {label source : String} {template : Template}
    (h : Template.parse label source = .ok template) :
    ∀ node ∈ template.nodes, TreePart.Within (maxNesting + 1) (.node node) := by
  intro node hnode
  rw [← Limits.usual_parse] at h
  exact ⟨Nat.le_refl _, fun hpath =>
    Nat.lt_succ_of_le (Limits.path_bounds h ⟨node, hnode, hpath⟩).1⟩

/-- Where the host declares no members and binds no lists and no maps at first, what an accepted
template binds climbs by at most 64 levels with each `#set` that is carried out: the first one binds
a value of at most 64 levels, the next one of at most 128, and so on, and these are all the bindings
that there are. -/
theorem bound_values_climb (engine : Engine) (sink : Sink) {label source : String}
    {template : Template} {context : Context}
    (hmembers : ∀ m ∈ engine.registry.methods, m ∈ Builtin.methods)
    (hparse : Template.parse label source = .ok template)
    (hscalars : ∀ name value, context.get? name = some value → value.depth = 0) :
    let bound := engine.bound sink template context
    (engine.render sink template context).context = context.putAll bound ∧
      ∀ k name value, bound[k]? = some (name, value) → value.depth ≤ 64 * (k + 1) := by
  intro bound
  refine ⟨engine.context_render sink template context, fun k name value hk => ?_⟩
  have hr : engine.setting.registry.Shallow := fun m hm => Builtin.shallow_methods m (hmembers m hm)
  have hstart : context.DepthAtMost 0 := fun name value h => (hscalars name value h).le
  have hgrows := Grows.renderNodes hr sink template.nodes (Template.within_of_parse hparse) 0
  have hclimbs : Climbs 0 bound := hgrows.climbs (.start { context, cache := engine.cache }) hstart
  have hdepth := hclimbs.depth_le hk
  rwa [Nat.zero_add] at hdepth

theorem mem_methods_of_usual : ∀ m ∈ Engine.usual.registry.methods, m ∈ Builtin.methods := by
  intro m hm
  have hall : Registry.withBuiltins.methods.toList = Builtin.methods :=
    Registry.toList_methods_defineAll .empty Builtin.methods
  rw [← hall]
  exact Array.mem_toList_iff.mpr hm

def listOf (name literal : String) : Expr :=
  .list [.reference (.mk false name [] literal)]

def listsInTurn : Template where
  label := "turn"
  nodes := [.set "y" (listOf "n" "$n"), .set "z" (listOf "y" "$y")]

theorem bound_values_climb_inTurn :
    let before := Context.ofList [("n", .boolean true)]
    let bound := Engine.usual.bound .unlimited listsInTurn before
    Template.parse "turn" "#set($y=[$n])#set($z=[$y])" = .ok listsInTurn ∧
      bound.map (fun b => b.2.depth) = [1, 2] ∧
      ∀ k name value, bound[k]? = some (name, value) → value.depth ≤ 64 * (k + 1) := by
  intro before bound
  have hparse : Template.parse "turn" "#set($y=[$n])#set($z=[$y])" = .ok listsInTurn := rfl
  have hscalars (name : String) (value : Value) (h : before.get? name = some value) :
      value.depth = 0 := by
    have hmem := Entries.mem_of_find? h
    cases List.mem_singleton.mp hmem
    rfl
  obtain ⟨-, hdepths⟩ :=
    bound_values_climb Engine.usual .unlimited mem_methods_of_usual hparse hscalars
  exact ⟨hparse, rfl, hdepths⟩

/-- Lists inside each other around a variable, which is set to them two times. -/
def setTwice (levels : Nat) : String :=
  let lists := List.replicate levels '[' ++ "$x".toList ++ List.replicate levels ']'
  let directive := "#set($x=".toList ++ lists ++ [')']
  String.ofList (directive ++ directive)

/-- The first value is within what the parser admits, and the second one is not. -/
theorem bound_values_beyond_limit :
    ∃ template, Template.parse "twice" (setTwice 33) = .ok template ∧
      (Engine.usual.bound .unlimited template .empty).map (fun b => b.2.depth) = [33, 66] ∧
      64 < 66 := by
  have hdepths :
      (match Template.parse "twice" (setTwice 33) with
        | .ok template =>
            some ((Engine.usual.bound .unlimited template .empty).map fun b => b.2.depth)
        | .error _ => none) = some [33, 66] := by
    decide +kernel
  cases hparse : Template.parse "twice" (setTwice 33) with
  | error fault =>
      rw [hparse] at hdepths
      cases hdepths
  | ok template =>
      rw [hparse] at hdepths
      exact ⟨template, rfl, Option.some.inj hdepths, by decide⟩

end Stencil
