import Stencil.Value.Compare

namespace Stencil

namespace Binary

variable {f : Format}

theorem compare_swap (x y : Binary f) : y.compare x = (x.compare y).map Ordering.swap := by
  cases x with
  | nan => cases y <;> rfl
  | infinite n =>
      cases y with
      | nan => rfl
      | infinite n' =>
          simp only [compare, Option.map_some]
          rw [← Std.OrientedCmp.eq_swap]
      | finite => cases n <;> rfl
  | finite n m e =>
      cases y with
      | nan => rfl
      | infinite n' => cases n' <;> rfl
      | finite n' m' e' =>
          simp only [compare, Option.map_some]
          rw [← Std.OrientedCmp.eq_swap, Int.min_comm e' e]

theorem compare_self {x : Binary f} (h : x.isNaN = false) : x.compare x = some .eq := by
  cases x with
  | nan => exact nomatch h
  | infinite n => simp only [compare, Std.ReflCmp.compare_self]
  | finite n m e => simp only [compare, Std.ReflCmp.compare_self]

theorem compare_self_of_isNaN {x : Binary f} (h : x.isNaN = true) : x.compare x = none := by
  cases x with
  | nan => rfl
  | infinite | finite => exact nomatch h

end Binary

theorem NumberClass.join_comm (a b : NumberClass) : a.join b = b.join a := by
  cases a <;> cases b <;> rfl

namespace Number

def isNaN : Number → Bool
  | .integer .. => false
  | .single x => x.isNaN
  | .double x => x.isNaN

theorem compare_swap (l r : Number) : r.compare l = (l.compare r).map Ordering.swap := by
  cases l <;> cases r
  case integer.integer k l _ k' r _ =>
    simp only [compare, Option.map_some]
    rw [← Std.OrientedCmp.eq_swap]
  all_goals
    simp only [compare]
    rw [NumberClass.join_comm]
    split <;> exact Binary.compare_swap _ _

theorem compare_self {n : Number} (h : n.isNaN = false) : n.compare n = some .eq := by
  cases n with
  | integer k v hv => simp only [compare, Std.ReflCmp.compare_self]
  | single x => exact Binary.compare_self h
  | double x => exact Binary.compare_self h

theorem compare_self_of_isNaN {n : Number} (h : n.isNaN = true) : n.compare n = none := by
  cases n with
  | integer => exact nomatch h
  | single x => exact Binary.compare_self_of_isNaN h
  | double x => exact Binary.compare_self_of_isNaN h

end Number

namespace Moment

theorem compare_swap (a b : Moment) : b.compare a = (a.compare b).swap := by
  simp only [compare, Ordering.swap_then, ← Std.OrientedCmp.eq_swap]

theorem compare_self (a : Moment) : a.compare a = .eq := by
  simp only [compare, Std.ReflCmp.compare_self, Ordering.then_eq]

end Moment

namespace Value

/-- Lists, maps and NaN are incomparable with themselves. -/
def isReflexive : Value → Bool
  | .list _ | .map _ => false
  | .number n => !n.isNaN
  | _ => true

theorem compare_text (s : String) (v : Value) : compare (.text s) v = compareText s v := by
  cases v <;> rfl

theorem compareText_isSome (s : String) (v : Value) : (compareText s v).isSome = !v.isNull := by
  cases v <;> rfl

theorem compareText_text_swap (s t : String) :
    compareText t (.text s) = (compareText s (.text t)).map Ordering.swap := by
  simp only [compareText, canonical, Option.map_some]
  rw [← Std.OrientedCmp.eq_swap]

theorem compare_text_right (s : String) (v : Value) :
    compare v (.text s) = (compareText s v).map Ordering.swap := by
  cases v with
  | text t => exact (compare_text t (.text s)).trans (compareText_text_swap s t)
  | _ => rfl

theorem compare_text_swap (s : String) (v : Value) :
    compare (.text s) v = (compare v (.text s)).map Ordering.swap := by
  rw [compare_text, compare_text_right, Option.map_map]
  simp only [Function.comp_def, Ordering.swap_swap, Option.map_id']

theorem compare_swap (a b : Value) : compare b a = (compare a b).map Ordering.swap := by
  cases a <;> cases b
  case number.number l r => exact Number.compare_swap l r
  case boolean.boolean l r => exact congrArg some Std.OrientedCmp.eq_swap
  case char.char l r => exact congrArg some Std.OrientedCmp.eq_swap
  case span.span l r => exact congrArg some Std.OrientedCmp.eq_swap
  case moment.moment l r => exact congrArg some (Moment.compare_swap l r)
  case number.char n c =>
    exact congrArg some Ordering.swap_swap.symm
  case enumMember.enumMember l r =>
    simp only [compare, eq_comm (a := r.typeName)]
    split
    · exact congrArg some Std.OrientedCmp.eq_swap
    · rfl
  case object.object l r =>
    simp only [compare, eq_comm (a := r.identity)]
    split <;> rfl
  case text.text s t => exact compare_text_right s (.text t)
  all_goals first
    | rfl
    | exact compare_text_swap ..

theorem compare_self (v : Value) : compare v v = if v.isReflexive then some .eq else none := by
  cases v with
  | null => rfl
  | boolean b => simp [compare, isReflexive]
  | number n =>
      cases h : n.isNaN with
      | false => simp [compare, isReflexive, h, Number.compare_self h]
      | true => simp [compare, isReflexive, h, Number.compare_self_of_isNaN h]
  | char c => simp [compare, isReflexive]
  | text s => simp [compare, compareText, canonical, isReflexive]
  | enumMember e => simp [compare, isReflexive]
  | moment m => simp [compare, Moment.compare_self, isReflexive]
  | span s => simp [compare, isReflexive]
  | list items => rfl
  | map entries => rfl
  | object o => simp [compare, isReflexive]

end Value

namespace ComparisonOperator

/-- The operator that says the same of swapped operands. -/
def mirror : ComparisonOperator → ComparisonOperator
  | .equal => .equal
  | .notEqual => .notEqual
  | .less => .greater
  | .greater => .less
  | .lessEqual => .greaterEqual
  | .greaterEqual => .lessEqual

/-- Whether a test holds of operands in the given order; `none` stands for incomparable ones. -/
def accepts (op : ComparisonOperator) (order : Option Ordering) : Bool :=
  match op with
  | .equal => order == some .eq
  | .notEqual => order != some .eq
  | .less => order == some .lt
  | .greater => order == some .gt
  | .lessEqual => order.any (· != .gt)
  | .greaterEqual => order.any (· != .lt)

theorem accepts_mirror (op : ComparisonOperator) (order : Option Ordering) :
    op.mirror.accepts (order.map Ordering.swap) = op.accepts order := by
  cases op <;> rcases order with _ | _ | _ | _ <;> rfl

end ComparisonOperator

namespace Value

theorem test_eq_accepts (op : ComparisonOperator) (a b : Value) :
    test op a b = op.accepts (compare a b) := by
  cases op <;> rfl

theorem comparison_coherent :
    (∀ a b : Value, compare b a = (compare a b).map Ordering.swap) ∧
    (∀ v : Value, compare v v = if v.isReflexive then some .eq else none) ∧
    (∀ (s : String) (v : Value), (compare (.text s) v).isSome = !v.isNull) ∧
    ∀ a b : Value,
      ([.less, .equal, .greater].countP fun op => test op a b) =
        (if (compare a b).isSome then 1 else 0) ∧
      ([.less, .greater, .lessEqual, .greaterEqual, .equal].any fun op => test op a b) =
        (compare a b).isSome ∧
      test .lessEqual a b = (test .less a b || test .equal a b) ∧
      test .greaterEqual a b = (test .greater a b || test .equal a b) ∧
      test .notEqual a b = !test .equal a b ∧
      ∀ op, test op.mirror b a = test op a b := by
  refine ⟨compare_swap, compare_self, ?_, ?_⟩
  · intro s v
    rw [compare_text, compareText_isSome]
  · intro a b
    have mirrored : ∀ op, test op.mirror b a = test op a b := by
      intro op
      rw [test_eq_accepts, test_eq_accepts, compare_swap a b,
        ComparisonOperator.accepts_mirror]
    simp only [test_eq_accepts] at mirrored ⊢
    refine ⟨?_, ?_, ?_, ?_, ?_, mirrored⟩ <;>
      rcases compare a b with _ | _ | _ | _ <;> rfl

end Value

end Stencil
