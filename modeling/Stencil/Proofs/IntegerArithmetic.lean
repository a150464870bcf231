import Stencil.Number.Basic

namespace Stencil

/-- `l = q * r + m` with a remainder `m` that is smaller than `r` and does not have the sign opposite
to that of `l`; the quotient is then truncated toward zero. -/
structure TruncatedDivision (l r q m : Int) : Prop where
  parts : l = q * r + m
  smaller : m.natAbs < r.natAbs
  nonneg : 0 ≤ l → 0 ≤ m
  nonpos : l ≤ 0 → m ≤ 0

namespace TruncatedDivision

variable {l r q m : Int}

theorem of_ne_zero (hr : r ≠ 0) : TruncatedDivision l r (l.tdiv r) (l.tmod r) where
  parts := by rw [Int.mul_comm, Int.mul_tdiv_add_tmod]
  smaller := by
    rw [Int.natAbs_tmod]
    exact Nat.mod_lt _ (Int.natAbs_pos.mpr hr)
  nonneg hl := Int.tmod_nonneg r hl
  nonpos hl := by
    have hneg := Int.tmod_nonneg r (Int.neg_nonneg.mpr hl)
    rw [Int.neg_tmod] at hneg
    exact Int.neg_nonneg.mp hneg

theorem divisor_ne_zero (h : TruncatedDivision l r q m) : r ≠ 0 := by
  rintro rfl
  exact absurd h.smaller (Nat.not_lt_zero _)

theorem eq (h : TruncatedDivision l r q m) : q = l.tdiv r ∧ m = l.tmod r := by
  have hsum : m + r * q = l := by rw [h.parts, Int.add_comm, Int.mul_comm]
  have hsmaller := h.smaller
  obtain hl | hl := Int.le_total 0 l
  · have hm := h.nonneg hl
    obtain ⟨hq, hm⟩ := (Int.tdiv_tmod_unique hl h.divisor_ne_zero).mpr ⟨hsum, hm, by omega⟩
    exact ⟨hq.symm, hm.symm⟩
  · have hm := h.nonpos hl
    obtain ⟨hq, hm⟩ := (Int.tdiv_tmod_unique' hl h.divisor_ne_zero).mpr ⟨hsum, by omega, hm⟩
    exact ⟨hq.symm, hm.symm⟩

end TruncatedDivision

namespace ArithmeticOperator

/-- `v` is the result of the operator on integers, computed exactly. -/
def Yields : ArithmeticOperator → Int → Int → Int → Prop
  | .add, l, r, v => v = l + r
  | .subtract, l, r, v => v = l - r
  | .multiply, l, r, v => v = l * r
  | .divide, l, r, v => ∃ m, TruncatedDivision l r v m
  | .modulo, l, r, v => ∃ q, TruncatedDivision l r q v

variable {op : ArithmeticOperator} {l r v : Int}

theorem yields_applyInt (h : ¬ ((op = .divide ∨ op = .modulo) ∧ r = 0)) :
    op.Yields l r (Number.applyInt op l r) := by
  cases op with
  | add | subtract | multiply => rfl
  | divide => exact ⟨_, .of_ne_zero fun hr => h ⟨.inl rfl, hr⟩⟩
  | modulo => exact ⟨_, .of_ne_zero fun hr => h ⟨.inr rfl, hr⟩⟩

theorem Yields.eq_applyInt (h : op.Yields l r v) : v = Number.applyInt op l r := by
  cases op with
  | add | subtract | multiply => exact h
  | divide =>
      obtain ⟨m, h⟩ := h
      exact h.eq.1
  | modulo =>
      obtain ⟨q, h⟩ := h
      exact h.eq.2

theorem Yields.divisor_ne_zero (h : op.Yields l r v) (hop : op = .divide ∨ op = .modulo) :
    r ≠ 0 := by
  obtain rfl | rfl := hop
  · obtain ⟨m, h⟩ := h
    exact h.divisor_ne_zero
  · obtain ⟨q, h⟩ := h
    exact h.divisor_ne_zero

end ArithmeticOperator

namespace Number

/-- The number that keeps the integer `v`: of 32 bits if the operands have no more and it fits, else
of 64 bits if it fits, else a double. -/
inductive Keeps (unsigned : Bool) (bits : Nat) (v : Int) : Number → Prop where
  | in32 (hbits : bits ≤ 32) (h : IntegerKind.Holds { unsigned, width := .w32 } v) :
      Keeps unsigned bits v (.integer { unsigned, width := .w32 } v h)
  | in64 (hwide : bits ≤ 32 → ¬ IntegerKind.Holds { unsigned, width := .w32 } v)
      (h : IntegerKind.Holds { unsigned, width := .w64 } v) :
      Keeps unsigned bits v (.integer { unsigned, width := .w64 } v h)
  | beyond (h : ¬ IntegerKind.Holds { unsigned, width := .w64 } v) (x : Double) :
      Keeps unsigned bits v (.double x)

theorem keeps_narrow (unsigned : Bool) (bits : Nat) (v : Int) :
    Keeps unsigned bits v (narrow unsigned bits v) := by
  let kind32 : IntegerKind := { unsigned, width := .w32 }
  let kind64 : IntegerKind := { unsigned, width := .w64 }
  by_cases h32 : bits ≤ 32 ∧ kind32.Holds v
  · obtain ⟨hbits, hholds⟩ := h32
    have hnarrow : narrow unsigned bits v = .integer kind32 v hholds := by
      rw [narrow, if_pos hbits, IntegerKind.number?, dif_pos hholds]
      rfl
    rw [hnarrow]
    exact .in32 hbits hholds
  · have hnone : (if bits ≤ 32 then kind32.number? v else none) = none := by
      split
      · rename_i hbits
        exact dif_neg fun hholds => h32 ⟨hbits, hholds⟩
      · rfl
    have hnarrow : narrow unsigned bits v = (kind64.number? v).getD (.double (.ofInt v)) := by
      rw [narrow, hnone]
      rfl
    rw [hnarrow]
    by_cases h64 : kind64.Holds v
    · rw [IntegerKind.number?, dif_pos h64]
      exact .in64 (fun hbits hholds => h32 ⟨hbits, hholds⟩) h64
    · rw [IntegerKind.number?, dif_neg h64]
      exact .beyond h64 _

theorem fitsExact_of_holds {unsigned : Bool} {v : Int}
    (h : IntegerKind.Holds { unsigned, width := .w64 } v) : FitsExact v := by
  have hpow {n : Nat} (hn : n ≤ 127) : (Nat.pow 2 n : Int) ≤ Nat.pow 2 127 :=
    Int.ofNat_le.mpr (Nat.pow_le_pow_right Nat.two_pos hn)
  have h63 := hpow (n := 63) (by decide)
  have h64 := hpow (n := 64) (by decide)
  obtain ⟨hleast, hgreatest⟩ := h
  cases unsigned with
  | false =>
      change -(Nat.pow 2 63 : Int) ≤ v at hleast
      change v ≤ (Nat.pow 2 63 : Int) - 1 at hgreatest
      exact ⟨by omega, by omega⟩
  | true =>
      change 0 ≤ v at hleast
      change v ≤ (Nat.pow 2 64 : Int) - 1 at hgreatest
      exact ⟨by omega, by omega⟩

/-- Where an operator has a result, the exact result is narrowed if it fits 128 bits; else doubles
take the place of the operands. -/
theorem apply_of_yields {op : ArithmeticOperator} {k k' : IntegerKind} {l r v : Int}
    (hl : k.Holds l) (hr : k'.Holds r) (hv : op.Yields l r v) :
    apply op (.integer k l hl) (.integer k' r hr) =
      some (if FitsExact v then
        narrow (k.unsigned || k'.unsigned) (max k.width.bits k'.width.bits) v
      else .double (applyBinary op (.ofInt l) (.ofInt r))) := by
  have hdivisor : ¬ ((op = .divide ∨ op = .modulo) ∧
      (Number.integer k' r hr).isZero = true) := by
    rintro ⟨hop, hzero⟩
    exact hv.divisor_ne_zero hop (eq_of_beq hzero)
  obtain rfl := hv.eq_applyInt
  simp only [apply, if_neg hdivisor]
  split <;> rfl

theorem exists_keeps_apply {op : ArithmeticOperator} {k k' : IntegerKind} {l r v : Int}
    (hl : k.Holds l) (hr : k'.Holds r) (hv : op.Yields l r v) :
    ∃ n, apply op (.integer k l hl) (.integer k' r hr) = some n ∧
      Keeps (k.unsigned || k'.unsigned) (max k.width.bits k'.width.bits) v n := by
  refine ⟨_, apply_of_yields hl hr hv, ?_⟩
  split
  · exact keeps_narrow _ _ _
  · rename_i hexact
    exact .beyond (fun h => hexact (fitsExact_of_holds h)) _

theorem apply_eq_none_iff {op : ArithmeticOperator} {k k' : IntegerKind} {l r : Int}
    (hl : k.Holds l) (hr : k'.Holds r) :
    apply op (.integer k l hl) (.integer k' r hr) = none ↔
      (op = .divide ∨ op = .modulo) ∧ r = 0 := by
  constructor
  · intro hnone
    apply Decidable.byContradiction
    intro hdivisor
    obtain ⟨n, hn, -⟩ :=
      exists_keeps_apply hl hr (ArithmeticOperator.yields_applyInt hdivisor)
    exact nomatch hnone.symm.trans hn
  · rintro ⟨hop, rfl⟩
    exact if_pos ⟨hop, rfl⟩

end Number

/-- Integers of any two kinds have no result exactly when a division or a remainder has the divisor
zero. Every other result is the exact one, kept as an integer where a kind of the joint class holds
it; the class is unsigned if one of the operands is. The opposite of an integer is kept as a signed
one. -/
theorem integer_arithmetic_exact {k k' : IntegerKind} {l r : Int} (hl : k.Holds l)
    (hr : k'.Holds r) :
    (∀ op : ArithmeticOperator,
      (Number.apply op (.integer k l hl) (.integer k' r hr) = none ↔
        (op = .divide ∨ op = .modulo) ∧ r = 0) ∧
      (¬ ((op = .divide ∨ op = .modulo) ∧ r = 0) → ∃ v, op.Yields l r v) ∧
      ∀ v, op.Yields l r v →
        ∃ n, Number.apply op (.integer k l hl) (.integer k' r hr) = some n ∧
          n.Keeps (k.unsigned || k'.unsigned) (max k.width.bits k'.width.bits) v) ∧
    (Number.integer k l hl).negate.Keeps false k.width.bits (-l) := by
  refine ⟨fun op => ?_, Number.keeps_narrow false k.width.bits (-l)⟩
  refine ⟨Number.apply_eq_none_iff hl hr, fun hdivisor => ?_, fun v hv => ?_⟩
  · exact ⟨_, ArithmeticOperator.yields_applyInt hdivisor⟩
  · exact Number.exists_keeps_apply hl hr hv

/-- The least number of 32 bits has its opposite, also as a quotient, in 64 bits only. -/
theorem integer_arithmetic_exact_least :
    ∃ (hl : IntegerKind.int32.Holds (-2147483648)) (hr : IntegerKind.int32.Holds (-1))
      (hv : IntegerKind.int64.Holds 2147483648),
      Number.apply .divide (.integer .int32 _ hl) (.integer .int32 _ hr) =
        some (.integer .int64 _ hv) ∧
      Number.apply .modulo (.integer .int32 _ hl) (.integer .int32 _ hr) ≠ none ∧
      (Number.integer .int32 _ hl).negate = .integer .int64 _ hv := by
  have hl : IntegerKind.int32.Holds (-2147483648) := by decide
  have hr : IntegerKind.int32.Holds (-1) := by decide
  have hv : IntegerKind.int64.Holds 2147483648 := by decide
  have hwide : ¬ IntegerKind.int32.Holds 2147483648 := by decide
  have hquotient : ArithmeticOperator.Yields .divide (-2147483648) (-1) 2147483648 :=
    ⟨0, { parts := by decide, smaller := by decide, nonneg := nofun, nonpos := fun _ => by decide }⟩
  have heq {n : Number} (hn : n.Keeps false 32 2147483648) : n = .integer .int64 _ hv := by
    cases hn with
    | in32 _ h => exact absurd h hwide
    | in64 _ _ => rfl
    | beyond h _ => exact absurd hv h
  obtain ⟨hoperators, hnegate⟩ := integer_arithmetic_exact hl hr
  obtain ⟨-, -, hdivide⟩ := hoperators .divide
  obtain ⟨hmodulo, -, -⟩ := hoperators .modulo
  obtain ⟨n, hn, hkeeps⟩ := hdivide _ hquotient
  refine ⟨hl, hr, hv, ?_, ?_, heq hnegate⟩
  · rw [hn, heq hkeeps]
  · intro hnone
    exact absurd (hmodulo.mp hnone).2 (by decide)

end Stencil
