import Mathlib.Tactic.NormNum
import Stencil.Proofs.IntegerArithmetic
import Stencil.Proofs.Rounding

namespace Stencil

theorem IntegerKind.Holds.bounds {k : IntegerKind} {v : Int} (h : k.Holds v) :
    -2 ^ 63 ≤ v ∧ v < 2 ^ 64 := by
  rcases k with ⟨_ | _, _ | _ | _ | _⟩ <;>
    simp [IntegerKind.Holds, IntegerKind.least, IntegerKind.greatest, Width.bits] at h <;> omega

namespace ArithmeticOperator

variable {op : ArithmeticOperator} {l r v : Int}

theorem mul_bounds {a b A B : Int} (ha : 0 ≤ a ∧ a ≤ A) (hb : 0 ≤ b ∧ b ≤ B) :
    0 ≤ a * b ∧ a * b ≤ A * B :=
  ⟨Int.mul_nonneg ha.1 hb.1, Int.mul_le_mul ha.2 hb.2 hb.1 (Int.le_trans ha.1 ha.2)⟩

theorem multiply_bounds (hl : -2 ^ 63 ≤ l ∧ l < 2 ^ 64) (hr : -2 ^ 63 ≤ r ∧ r < 2 ^ 64) :
    -2 ^ 127 ≤ l * r ∧ l * r < 2 ^ 128 ∧ (2 ^ 127 ≤ l * r → 2 ^ 63 < l ∧ 2 ^ 63 < r) := by
  obtain hneg | hpos := Int.lt_or_le l 0
  · obtain hneg' | hpos' := Int.lt_or_le r 0
    · have h : 0 ≤ -l * -r ∧ -l * -r ≤ 2 ^ 63 * 2 ^ 63 := mul_bounds (by omega) (by omega)
      rw [Int.neg_mul_neg] at h
      omega
    · have h : 0 ≤ -l * r ∧ -l * r ≤ 2 ^ 63 * 2 ^ 64 := mul_bounds (by omega) (by omega)
      rw [Int.neg_mul] at h
      omega
  · obtain hneg' | hpos' := Int.lt_or_le r 0
    · have h : 0 ≤ l * -r ∧ l * -r ≤ 2 ^ 64 * 2 ^ 63 := mul_bounds (by omega) (by omega)
      rw [Int.mul_neg] at h
      omega
    · have h : 0 ≤ l * r ∧ l * r ≤ (2 ^ 64 - 1) * (2 ^ 64 - 1) :=
        mul_bounds (by omega) (by omega)
      refine ⟨by omega, by omega, fun hv => ⟨?_, ?_⟩⟩
      · refine Int.not_le.mp fun hle => ?_
        have hsmall : 0 ≤ l * r ∧ l * r ≤ 2 ^ 63 * (2 ^ 64 - 1) :=
          mul_bounds (by omega) (by omega)
        omega
      · refine Int.not_le.mp fun hle => ?_
        have hsmall : 0 ≤ l * r ∧ l * r ≤ (2 ^ 64 - 1) * 2 ^ 63 :=
          mul_bounds (by omega) (by omega)
        omega

/-- Only products leave the range of what is computed exactly, and only at the top. -/
theorem Yields.bounds (h : op.Yields l r v) (hl : -2 ^ 63 ≤ l ∧ l < 2 ^ 64)
    (hr : -2 ^ 63 ≤ r ∧ r < 2 ^ 64) :
    -2 ^ 127 ≤ v ∧ v < 2 ^ 128 ∧ (2 ^ 127 ≤ v → op = .multiply ∧ 2 ^ 63 < l ∧ 2 ^ 63 < r) := by
  cases op with
  | add =>
      obtain rfl : v = l + r := h
      refine ⟨by omega, by omega, fun hv => by omega⟩
  | subtract =>
      obtain rfl : v = l - r := h
      refine ⟨by omega, by omega, fun hv => by omega⟩
  | multiply =>
      obtain rfl : v = l * r := h
      obtain ⟨hlow, hhigh, hfactors⟩ := multiply_bounds hl hr
      exact ⟨hlow, hhigh, fun hv => ⟨rfl, hfactors hv⟩⟩
  | divide =>
      obtain ⟨m, h⟩ := h
      have hle : v.natAbs ≤ l.natAbs := by
        rw [h.eq.1, Int.natAbs_tdiv]
        exact Nat.div_le_self ..
      refine ⟨by omega, by omega, fun hv => by omega⟩
  | modulo =>
      obtain ⟨q, h⟩ := h
      have hlt := h.smaller
      refine ⟨by omega, by omega, fun hv => by omega⟩

end ArithmeticOperator

namespace Number

theorem ne_double_of_number? {k : IntegerKind} {v : Int} {n : Number} (h : k.number? v = some n)
    (x : Double) : n ≠ .double x := by
  unfold IntegerKind.number? at h
  split at h
  · cases h
    intro heq
    cases heq
  · cases h

theorem eq_ofInt_of_narrow {unsigned : Bool} {bits : Nat} {v : Int} {x : Double}
    (h : narrow unsigned bits v = .double x) : x = .ofInt v := by
  let in32 := if bits ≤ 32 then IntegerKind.number? { unsigned, width := .w32 } v else none
  let in64 := IntegerKind.number? { unsigned, width := .w64 } v
  change (in32 <|> in64).getD (.double (.ofInt v)) = .double x at h
  cases hfound : (in32 <|> in64) with
  | none =>
      rw [hfound] at h
      cases h
      rfl
  | some n =>
      rw [hfound] at h
      obtain h32 | ⟨-, h64⟩ := (Option.orElse_eq_some _ _ _).mp hfound
      · obtain ⟨-, h32⟩ := Option.ite_none_right_eq_some.mp h32
        exact absurd h (ne_double_of_number? h32 x)
      · exact absurd h (ne_double_of_number? h64 x)

theorem double_of_apply {op : ArithmeticOperator} {k k' : IntegerKind} {l r v : Int}
    (hl : k.Holds l) (hr : k'.Holds r) (hv : op.Yields l r v) {x : Double}
    (hx : apply op (.integer k l hl) (.integer k' r hr) = some (.double x)) :
    FitsExact v ∧ x = .ofInt v ∨ ¬ FitsExact v ∧ x = applyBinary op (.ofInt l) (.ofInt r) := by
  have happly := Option.some.inj ((apply_of_yields hl hr hv).symm.trans hx)
  split at happly
  · rename_i hexact
    exact .inl ⟨hexact, eq_ofInt_of_narrow happly⟩
  · rename_i hexact
    cases happly
    exact .inr ⟨hexact, rfl⟩

end Number

namespace Binary

theorem lt_bias_double {q : ℚ} (h : |q| ≤ 2 ^ 130) : |q| < 2 ^ Format.double.bias := by
  refine h.trans_lt ?_
  rw [← zpow_natCast]
  exact zpow_lt_zpow_right₀ one_lt_two (by decide)

theorem isNearest_ofInt_double {v : Int} (hlow : -2 ^ 128 ≤ v) (hhigh : v ≤ 2 ^ 128) :
    (ofInt v : Double).IsNearest v := by
  refine isNearest_ofInt Format.regular_double (lt_bias_double (abs_le.mpr ⟨?_, ?_⟩))
  · exact_mod_cast (by omega : -2 ^ 130 ≤ v)
  · exact_mod_cast (by omega : v ≤ 2 ^ 130)

theorem exists_toRat?_ofInt {v : Int} (h : -2 ^ 63 ≤ v ∧ v < 2 ^ 64) :
    ∃ a, (ofInt v : Double).IsNearest v ∧ (ofInt v : Double).toRat? = some a ∧ |a| ≤ 2 ^ 65 := by
  have hnearest := isNearest_ofInt_double (v := v) (by omega) (by omega)
  obtain ⟨a, ha, hle⟩ := hnearest.exists_toRat? Format.regular_double
  have hv : |(v : ℚ)| ≤ 2 ^ 64 := by
    rw [abs_le]
    exact ⟨by exact_mod_cast (by omega : -2 ^ 64 ≤ v), by exact_mod_cast h.2.le⟩
  exact ⟨a, hnearest, ha, by linarith⟩

/-- A multiple of `2 ^ 11` of 64 bits needs no more than the 53 bits of a double. -/
theorem exists_datum_of_dvd {v : Int} (hdvd : 2048 ∣ v) (hlow : 2 ^ 63 < v) (hhigh : v < 2 ^ 64) :
    ∃ m e, Format.double.IsDatum m e ∧ valueOf false m e = v := by
  obtain ⟨n, rfl⟩ := hdvd
  obtain ⟨m, rfl⟩ := Int.eq_ofNat_of_zero_le (by omega : 0 ≤ n)
  refine ⟨m, 11, ⟨?_, by decide, by decide, .inl ?_⟩, ?_⟩
  · change m < 2 ^ 53
    omega
  · change 2 ^ 52 ≤ m
    omega
  · rw [valueOf, withSign, if_neg Bool.false_ne_true]
    push_cast
    ring

theorem toRat?_ofInt_of_dvd {v : Int} (hdvd : 2048 ∣ v) (hlow : 2 ^ 63 < v) (hhigh : v < 2 ^ 64) :
    (ofInt v : Double).toRat? = some (v : ℚ) := by
  have hnearest := isNearest_ofInt_double (v := v) (by omega) (by omega)
  obtain ⟨m, e, hdatum, hvalue⟩ := exists_datum_of_dvd hdvd hlow hhigh
  rw [← hvalue] at hnearest ⊢
  exact hnearest.toRat?_eq hdatum

end Binary

/-- Results that leave 64 bits are the doubles nearest to them as long as 128 bits hold them, which
is below `2 ^ 127`. From there on they are products, and only the product of the doubles nearest to
the factors is rounded to nearest. This is nearest to the exact result as well if both factors are
multiples of `2048`, since these are doubles themselves. -/
theorem integer_results_rounded {op : ArithmeticOperator} {k k' : IntegerKind} {l r v : Int}
    (hl : k.Holds l) (hr : k'.Holds r) (hv : op.Yields l r v) {x : Double}
    (hx : Number.apply op (.integer k l hl) (.integer k' r hr) = some (.double x)) :
    (v < 2 ^ 127 → x.IsNearest v) ∧
      (2 ^ 127 ≤ v → op = .multiply ∧
        (∃ (y z : Double) (a b : ℚ), y.IsNearest l ∧ y.toRat? = some a ∧ z.IsNearest r ∧
          z.toRat? = some b ∧ x.IsNearest (a * b)) ∧
        (2048 ∣ l → 2048 ∣ r → x.IsNearest v)) := by
  have hlBounds := hl.bounds
  have hrBounds := hr.bounds
  obtain ⟨hlow, hhigh, htop⟩ := hv.bounds hlBounds hrBounds
  have hfits : Number.FitsExact v ↔ v < 2 ^ 127 := ⟨fun h => h.2, fun h => ⟨hlow, h⟩⟩
  have hways := Number.double_of_apply hl hr hv hx
  rw [hfits] at hways
  constructor
  · intro hbelow
    obtain ⟨-, rfl⟩ | ⟨habove, -⟩ := hways
    · exact Binary.isNearest_ofInt_double (by omega) (by omega)
    · exact absurd hbelow habove
  · intro habove
    obtain ⟨rfl, hlHigh, hrHigh⟩ := htop habove
    obtain ⟨hbelow, -⟩ | ⟨-, rfl⟩ := hways
    · omega
    obtain ⟨a, hy, ha, haBound⟩ := Binary.exists_toRat?_ofInt hlBounds
    obtain ⟨b, hz, hb, hbBound⟩ := Binary.exists_toRat?_ofInt hrBounds
    have hbound : |a * b| ≤ 2 ^ 130 := by
      rw [abs_mul, show (2 : ℚ) ^ 130 = 2 ^ 65 * 2 ^ 65 by norm_num]
      exact mul_le_mul haBound hbBound (abs_nonneg b) (by positivity)
    have hproduct := Binary.isNearest_mul Format.regular_double ha hb (Binary.lt_bias_double hbound)
    refine ⟨rfl, ⟨_, _, a, b, hy, ha, hz, hb, hproduct⟩, fun hdvd hdvd' => ?_⟩
    have hal : a = l := Option.some.inj
      (ha.symm.trans (Binary.toRat?_ofInt_of_dvd hdvd hlHigh hlBounds.2))
    have hbr : b = r := Option.some.inj
      (hb.symm.trans (Binary.toRat?_ofInt_of_dvd hdvd' hrHigh hrBounds.2))
    obtain rfl : v = l * r := hv
    rw [hal, hbr] at hproduct
    rw [Int.cast_mul]
    exact hproduct

/-- It lies half way between `2 ^ 64` and the double before that. -/
def midwayFactor : Int :=
  18446744073709550592

theorem holds_midwayFactor : IntegerKind.uint64.Holds midwayFactor := by
  decide

def midwayNumber : Number :=
  .integer .uint64 midwayFactor holds_midwayFactor

/-- The double that the product with itself is rounded to: `2 ^ 128`. -/
def midwayProduct : Double :=
  .finite false 4503599627370496 76

theorem apply_midwayNumber :
    Number.apply .multiply midwayNumber midwayNumber = some (.double midwayProduct) := by
  decide +kernel

theorem integer_results_rounded_midway :
    (∃ x : Double, Number.apply .add midwayNumber midwayNumber = some (.double x) ∧
      x.IsNearest ((midwayFactor + midwayFactor : Int) : ℚ)) ∧
    2 ^ 127 ≤ midwayFactor * midwayFactor ∧
    ∃ (y z : Double) (a b : ℚ), y.IsNearest midwayFactor ∧ y.toRat? = some a ∧
      z.IsNearest midwayFactor ∧ z.toRat? = some b ∧ midwayProduct.IsNearest (a * b) := by
  have hsum : Number.apply .add midwayNumber midwayNumber =
      some (.double (.ofInt (midwayFactor + midwayFactor))) := by
    decide +kernel
  have hadd : ArithmeticOperator.Yields .add midwayFactor midwayFactor _ := rfl
  have hmultiply : ArithmeticOperator.Yields .multiply midwayFactor midwayFactor _ := rfl
  have hlarge : 2 ^ 127 ≤ midwayFactor * midwayFactor := by decide
  refine ⟨⟨_, hsum, ?_⟩, hlarge, ?_⟩
  · have hrounded := integer_results_rounded holds_midwayFactor holds_midwayFactor hadd hsum
    exact hrounded.1 (by decide)
  · have hrounded := integer_results_rounded holds_midwayFactor holds_midwayFactor hmultiply
      apply_midwayNumber
    exact (hrounded.2 hlarge).2.1

/-- The factors are rounded up to `2 ^ 64`, and their product to `2 ^ 128`. The double before that
is nearer to the exact product. -/
theorem product_rounded_twice :
    Number.apply .multiply midwayNumber midwayNumber = some (.double midwayProduct) ∧
      ¬ midwayProduct.IsNearest ((midwayFactor * midwayFactor : Int) : ℚ) ∧
      (.finite false 9007199254740991 75 : Double).IsNearest
        ((midwayFactor * midwayFactor : Int) : ℚ) := by
  have hexact : Binary.ofInt (midwayFactor * midwayFactor) =
      (.finite false 9007199254740991 75 : Double) := by
    decide +kernel
  have hnearest : (.finite false 9007199254740991 75 : Double).IsNearest
      ((midwayFactor * midwayFactor : Int) : ℚ) := by
    rw [← hexact]
    exact Binary.isNearest_ofInt_double (by decide) (by decide)
  refine ⟨apply_midwayNumber, fun hproduct => ?_, hnearest⟩
  have hvalues := Option.some.inj (hproduct.unique Format.regular_double hnearest)
  norm_num [Binary.valueOf, withSign] at hvalues

end Stencil
