import Mathlib.Algebra.Order.Field.Power
import Mathlib.Algebra.Order.Field.Rat
import Mathlib.Tactic.FieldSimp
import Mathlib.Tactic.Linarith
import Mathlib.Tactic.Positivity
import Mathlib.Tactic.Ring
import Stencil.Number.Binary

/-! Rounding to binary formats. What is carried out exactly and rounded once is the datum nearest to
the exact value, and of two equally near ones the one with the even significand. There is only one
such number. -/

namespace Stencil

namespace Ratio

def toRat (r : Ratio) : ℚ :=
  r.num / r.den

variable (r : Ratio)

theorem den_cast_pos : (0 : ℚ) < r.den :=
  Nat.cast_pos.mpr r.den_pos

theorem toRat_scale {base : Nat} (hbase : 0 < base) (e : Int) :
    (r.scale base hbase e).toRat = r.toRat * (base : ℚ) ^ e := by
  have hb : (base : ℚ) ≠ 0 := Nat.cast_ne_zero.mpr hbase.ne'
  have hden := r.den_cast_pos.ne'
  cases e with
  | ofNat n =>
      simp only [scale, toRat, Nat.pow_eq, Nat.cast_mul, Nat.cast_pow, Int.ofNat_eq_natCast,
        zpow_natCast]
      ring
  | negSucc n =>
      simp only [scale, toRat, Nat.pow_eq, Nat.cast_mul, Nat.cast_pow, zpow_negSucc]
      field_simp

theorem one_le_toRat_iff : 1 ≤ r.toRat ↔ r.den ≤ r.num := by
  rw [toRat, one_le_div r.den_cast_pos, Nat.cast_le]

/-- `size` counts the digits of every positive natural in the base. -/
def Counts (base : Nat) (size : Nat → Nat) : Prop :=
  ∀ n : Nat, 0 < n → (base : ℚ) ^ (size n : Int) ≤ n * base ∧ (n : ℚ) < (base : ℚ) ^ (size n : Int)

theorem counts_log2 : Counts 2 fun n => n.log2 + 1 := by
  intro n hn
  have hle : 2 ^ (n.log2 + 1) ≤ n * 2 :=
    Nat.mul_le_mul_right 2 (Nat.log2_self_le hn.ne')
  have hlt : n < 2 ^ (n.log2 + 1) := Nat.lt_log2_self
  rw [zpow_natCast]
  exact ⟨by exact_mod_cast hle, by exact_mod_cast hlt⟩

theorem magnitude_spec {base : Nat} (hbase : 1 < base) {size : Nat → Nat}
    (hsize : Counts base size) (hnum : 0 < r.num) :
    let e := r.magnitude base (Nat.zero_lt_of_lt hbase) size
    (base : ℚ) ^ e ≤ r.toRat ∧ r.toRat < (base : ℚ) ^ (e + 1) := by
  intro e
  have hb : (0 : ℚ) < base := Nat.cast_pos.mpr (Nat.zero_lt_of_lt hbase)
  let estimate : Int := (size r.num : Int) - size r.den
  obtain ⟨hnumLow, hnumHigh⟩ := hsize r.num hnum
  obtain ⟨hdenLow, hdenHigh⟩ := hsize r.den r.den_pos
  have hden := zpow_pos hb (size r.den : Int)
  have hsplit : (base : ℚ) ^ estimate = base ^ (size r.num : Int) / base ^ (size r.den : Int) :=
    zpow_sub₀ hb.ne' _ _
  -- the estimate is off by one at most, and only to the top
  have hlow : (base : ℚ) ^ estimate ≤ r.toRat * base := by
    rw [hsplit, toRat, div_mul_eq_mul_div, div_le_div_iff₀ hden r.den_cast_pos]
    exact mul_le_mul hnumLow hdenHigh.le r.den_cast_pos.le (by positivity)
  have hhigh : r.toRat < base ^ estimate * base := by
    rw [hsplit, toRat, div_mul_eq_mul_div, div_lt_div_iff₀ r.den_cast_pos hden]
    calc (r.num : ℚ) * base ^ (size r.den : Int)
        < base ^ (size r.num : Int) * base ^ (size r.den : Int) :=
          mul_lt_mul_of_pos_right hnumHigh hden
      _ ≤ base ^ (size r.num : Int) * (r.den * base) :=
          mul_le_mul_of_nonneg_left hdenLow (zpow_pos hb _).le
      _ = base ^ (size r.num : Int) * base * r.den := by ring
  have hreached : (r.scale base (Nat.zero_lt_of_lt hbase) (-estimate)).den ≤
        (r.scale base (Nat.zero_lt_of_lt hbase) (-estimate)).num ↔
      (base : ℚ) ^ estimate ≤ r.toRat := by
    rw [← one_le_toRat_iff, toRat_scale, zpow_neg, ← div_eq_mul_inv, one_le_div (zpow_pos hb _)]
  by_cases hle : (base : ℚ) ^ estimate ≤ r.toRat
  · have he : e = estimate := if_pos (hreached.mpr hle)
    rw [he, zpow_add_one₀ hb.ne']
    exact ⟨hle, hhigh⟩
  · have he : e = estimate - 1 := if_neg fun h => hle (hreached.mp h)
    rw [he, sub_add_cancel, zpow_sub_one₀ hb.ne', ← div_eq_mul_inv, div_le_iff₀ hb]
    exact ⟨hlow, not_le.mp hle⟩

theorem binaryMagnitude_spec (hnum : 0 < r.num) :
    (2 : ℚ) ^ r.binaryMagnitude ≤ r.toRat ∧ r.toRat < 2 ^ (r.binaryMagnitude + 1) :=
  r.magnitude_spec Nat.one_lt_two counts_log2 hnum

end Ratio

/-- `k` is an integer nearest to `t`, and the even one if there are two. -/
structure IsNearestInt (t : ℚ) (k : Int) : Prop where
  close : |t - k| ≤ 1 / 2
  tie : |t - k| = 1 / 2 → Even k

theorem isNearestInt_of_lt {t : ℚ} {k : Int} (h : |t - k| < 1 / 2) : IsNearestInt t k :=
  ⟨h.le, fun heq => absurd heq h.ne⟩

theorem Ratio.isNearestInt_round (r : Ratio) : IsNearestInt r.toRat r.round := by
  have hden := r.den_cast_pos
  have htoRat : r.toRat = (r.num / r.den : Nat) + ((r.num % r.den : Nat) : ℚ) / r.den := by
    rw [toRat]
    conv_lhs => rw [← Nat.div_add_mod r.num r.den]
    push_cast
    field_simp
  simp only [htoRat, round, divNearest]
  generalize r.num / r.den = quotient
  have hremainder := Nat.mod_lt r.num r.den_pos
  generalize r.num % r.den = remainder at hremainder ⊢
  have hpart : (remainder : ℚ) / r.den < 1 := by
    rw [div_lt_one hden]
    exact_mod_cast hremainder
  split
  · rename_i hbelow
    have hhalf : (remainder : ℚ) / r.den < 1 / 2 := by
      rw [div_lt_div_iff₀ hden two_pos]
      exact_mod_cast (by omega : remainder * 2 < 1 * r.den)
    refine isNearestInt_of_lt ?_
    rw [Int.cast_natCast, add_sub_cancel_left, abs_of_nonneg (by positivity)]
    exact hhalf
  · split
    · rename_i habove
      have hhalf : 1 / 2 < (remainder : ℚ) / r.den := by
        rw [div_lt_div_iff₀ two_pos hden]
        exact_mod_cast (by omega : 1 * r.den < remainder * 2)
      refine isNearestInt_of_lt ?_
      push_cast
      rw [abs_lt]
      constructor <;> linarith
    · rename_i hbelow habove
      have hhalf : (remainder : ℚ) / r.den = 1 / 2 := by
        rw [div_eq_div_iff hden.ne' two_ne_zero]
        exact_mod_cast (by omega : remainder * 2 = 1 * r.den)
      rw [hhalf]
      obtain heven | hodd := Nat.mod_two_eq_zero_or_one quotient
      · refine ⟨?_, fun _ => ?_⟩
        · simp [heven]
        · rw [heven, Nat.add_zero, Int.even_coe_nat]
          exact Nat.even_iff.mpr heven
      · refine ⟨?_, fun _ => ?_⟩
        · rw [hodd, abs_le]
          push_cast
          constructor <;> linarith
        · rw [hodd, Int.even_coe_nat]
          exact Nat.even_add_one.mpr (Nat.not_even_iff.mpr hodd)

/-- `x` is nearer to `q` than `y` is. If they are as near, they are the same number or `x` is
even. -/
def Preferred (q x y : ℚ) (even : Prop) : Prop :=
  |q - x| < |q - y| ∨ |q - x| = |q - y| ∧ (x = y ∨ even)

def withSign (negative : Bool) (q : ℚ) : ℚ :=
  if negative then -q else q

theorem withSign_withSign (negative negative' : Bool) (q : ℚ) :
    withSign negative (withSign negative' q) = withSign (negative != negative') q := by
  cases negative <;> cases negative' <;> simp [withSign]

theorem withSign_mul_withSign (negative negative' : Bool) (q q' : ℚ) :
    withSign negative q * withSign negative' q' = withSign (negative != negative') (q * q') := by
  cases negative <;> cases negative' <;> simp [withSign]

theorem abs_withSign (negative : Bool) (q : ℚ) : |withSign negative q| = |q| := by
  cases negative <;> simp [withSign]

namespace Preferred

variable {q x y : ℚ} {even : Prop}

theorem le (h : Preferred q x y even) : |q - x| ≤ |q - y| :=
  h.elim le_of_lt fun heq => heq.1.le

theorem mono (h : Preferred q x y even) {even' : Prop} (heven : even → even') :
    Preferred q x y even' :=
  h.imp_right fun ⟨heq, htie⟩ => ⟨heq, htie.imp_right heven⟩

theorem scale (h : Preferred q x y even) {unit : ℚ} (hunit : 0 < unit) :
    Preferred (q * unit) (x * unit) (y * unit) even := by
  simp only [Preferred, ← sub_mul, abs_mul, abs_of_pos hunit, mul_lt_mul_iff_left₀ hunit,
    mul_left_inj' hunit.ne']
  exact h

theorem neg (h : Preferred q x y even) : Preferred (-q) (-x) (-y) even := by
  simp only [Preferred, neg_sub_neg, neg_inj, abs_sub_comm x q, abs_sub_comm y q]
  exact h

theorem withSign (negative : Bool) (h : Preferred q x (Stencil.withSign negative y) even) :
    Preferred (Stencil.withSign negative q) (Stencil.withSign negative x) y even := by
  cases negative with
  | false => exact h
  | true =>
      have hneg := h.neg
      simp only [Stencil.withSign, if_true, neg_neg] at hneg
      exact hneg

end Preferred

namespace IsNearestInt

variable {t : ℚ} {k : Int} (h : IsNearestInt t k)
include h

theorem preferred (j : Int) : Preferred t k j (Even k) := by
  by_cases hj : k = j
  · exact .inr ⟨by rw [hj], .inl (by rw [hj])⟩
  · have hone : (1 : ℚ) ≤ |(k : ℚ) - j| := by
      exact_mod_cast Int.one_le_abs (sub_ne_zero.mpr hj)
    have hsplit : |(k : ℚ) - j| ≤ |t - k| + |t - j| := by
      rw [abs_sub_comm t k]
      exact abs_sub_le _ _ _
    obtain hlt | heq := h.close.lt_or_eq
    · exact .inl (by linarith)
    · obtain hlt | hle := lt_or_ge |t - k| |t - j|
      · exact .inl hlt
      · exact .inr ⟨by linarith, .inr (h.tie heq)⟩

theorem le_of_lt {n : Int} (hn : t < n) : k ≤ n := by
  have hclose := (abs_le.mp h.close).1
  have hlt : (k : ℚ) < n + 1 := by linarith
  exact Int.lt_add_one_iff.mp (by exact_mod_cast hlt)

theorem ge_of_ge {n : Int} (hn : (n : ℚ) ≤ t) : n ≤ k := by
  have hclose := (abs_le.mp h.close).2
  have hlt : (n : ℚ) < k + 1 := by linarith
  exact Int.lt_add_one_iff.mp (by exact_mod_cast hlt)

theorem preferred_of_lt {n : Int} (hn : (n : ℚ) ≤ t) {y : ℚ} (hy : y < n) (even : Prop) :
    Preferred t k y even := by
  have hle := (h.preferred n).le
  rw [abs_of_nonneg (sub_nonneg.mpr hn)] at hle
  left
  rw [abs_of_nonneg (by linarith : 0 ≤ t - y)]
  linarith

end IsNearestInt

namespace Format

/-- The format has a significand of more than one bit, and more than one exponent. -/
structure Regular (f : Format) : Prop where
  precision : 1 < f.precision
  exponents : f.minExponent < f.maxExponent

theorem Regular.pow_precision {f : Format} (hf : f.Regular) :
    2 ^ f.precision = 2 ^ (f.precision - 1) * 2 := by
  rw [← pow_succ, Nat.sub_add_cancel hf.precision.le]

theorem regular_double : double.Regular :=
  ⟨by decide, by decide⟩

/-- The significand is as long as the precision, but for the least exponent, where it may be
shorter. -/
structure IsDatum (f : Format) (m : Nat) (e : Int) : Prop where
  significand : m < 2 ^ f.precision
  least : f.minExponent ≤ e
  greatest : e ≤ f.maxExponent
  normal : 2 ^ (f.precision - 1) ≤ m ∨ e = f.minExponent

end Format

namespace Binary

def valueOf (negative : Bool) (m : Nat) (e : Int) : ℚ :=
  withSign negative (m * 2 ^ e)

def toRat? {f : Format} : Binary f → Option ℚ
  | .nan | .infinite _ => none
  | .finite negative m e => some (valueOf negative m e)

/-- The datum of the format nearest to `q`; of two equally near ones the one with the even
significand. -/
inductive IsNearest {f : Format} (q : ℚ) : Binary f → Prop where
  | finite {negative : Bool} {m : Nat} {e : Int} (datum : f.IsDatum m e)
      (nearest : ∀ negative' m' e', f.IsDatum m' e' →
        Preferred q (valueOf negative m e) (valueOf negative' m' e') (Even m)) :
      IsNearest q (.finite negative m e)

variable {f : Format}

theorem withSign_valueOf (negative negative' : Bool) (m : Nat) (e : Int) :
    withSign negative (valueOf negative' m e) = valueOf (negative != negative') m e :=
  withSign_withSign ..

theorem valueOf_not (negative : Bool) (m : Nat) (e : Int) :
    valueOf (!negative) m e = -valueOf negative m e := by
  cases negative <;> simp [valueOf, withSign]

theorem exists_units (negative : Bool) (m : Nat) {e e' : Int} (hle : e ≤ e') :
    ∃ j : Int, valueOf negative m e' = j * 2 ^ e ∧ (Even m → Even j) := by
  obtain ⟨n, rfl⟩ := Int.le.dest hle
  refine ⟨signed negative (m * 2 ^ n), ?_, fun heven => ?_⟩
  · rw [valueOf, zpow_add₀ two_ne_zero, zpow_natCast]
    cases negative <;> simp [withSign, signed] <;> ring
  · have hproduct : Even ((m * 2 ^ n : Nat) : Int) :=
      (Int.even_coe_nat _).mpr (heven.mul_right _)
    cases negative with
    | false => exact hproduct
    | true => exact hproduct.neg

/-- Below that all data are smaller than the normal ones. -/
theorem valueOf_lt {m : Nat} {e e' : Int} (hf : f.Regular) (hdatum : f.IsDatum m e') (hlt : e' < e)
    (negative : Bool) : valueOf negative m e' < 2 ^ (f.precision - 1) * (2 : ℚ) ^ e := by
  have hpos : (0 : ℚ) < 2 ^ e' := zpow_pos two_pos e'
  have hm : (m : ℚ) < 2 ^ f.precision := by exact_mod_cast hdatum.significand
  have hstep : (2 : ℚ) ^ e' * 2 ≤ 2 ^ e := by
    rw [← zpow_add_one₀ two_ne_zero]
    exact zpow_le_zpow_right₀ one_le_two hlt
  have hsplit : (2 : ℚ) ^ f.precision = 2 ^ (f.precision - 1) * 2 := by
    exact_mod_cast hf.pow_precision
  calc valueOf negative m e' ≤ |valueOf negative m e'| := le_abs_self _
    _ = m * 2 ^ e' := by rw [valueOf, abs_withSign, abs_of_nonneg (by positivity)]
    _ < 2 ^ f.precision * 2 ^ e' := mul_lt_mul_of_pos_right hm hpos
    _ = 2 ^ (f.precision - 1) * (2 ^ e' * 2) := by rw [hsplit]; ring
    _ ≤ 2 ^ (f.precision - 1) * 2 ^ e := mul_le_mul_of_nonneg_left hstep (by positivity)

/-- In the unit of its exponent the number is rounded to an integer, and no datum of another
exponent comes nearer. -/
theorem preferred_datum (hf : f.Regular) {t : ℚ} {k e : Int} (h : IsNearestInt t k)
    (hnormal : 2 ^ (f.precision - 1) ≤ t ∨ e = f.minExponent) {m' : Nat} {e' : Int}
    (hdatum : f.IsDatum m' e') (negative' : Bool) :
    Preferred (t * 2 ^ e) (k * 2 ^ e) (valueOf negative' m' e') (Even k) := by
  have hunit : (0 : ℚ) < 2 ^ e := zpow_pos two_pos e
  by_cases hle : e ≤ e'
  · obtain ⟨j, hj, -⟩ := exists_units negative' m' hle
    rw [hj]
    exact (h.preferred j).scale hunit
  · have hlt := valueOf_lt hf hdatum (not_le.mp hle) negative'
    have hlow : ((2 ^ (f.precision - 1) : Int) : ℚ) ≤ t := by
      push_cast
      exact hnormal.resolve_right fun heq => hle (heq ▸ hdatum.least)
    rw [← div_mul_cancel₀ (valueOf negative' m' e') hunit.ne']
    refine (h.preferred_of_lt hlow ?_ _).scale hunit
    push_cast
    rwa [div_lt_iff₀ hunit]

/-- A significand that rounding has carried past the precision is twice that of the datum. -/
theorem exists_assemble (hf : f.Regular) (negative : Bool) {k : Nat} {e : Int}
    (hk : k ≤ 2 ^ f.precision) (hleast : f.minExponent ≤ e) (hgreatest : e < f.maxExponent)
    (hnormal : 2 ^ (f.precision - 1) ≤ k ∨ e = f.minExponent) :
    ∃ m e', assemble (f := f) negative k e = .finite negative m e' ∧ f.IsDatum m e' ∧
      (m : ℚ) * 2 ^ e' = k * 2 ^ e ∧ (Even k → Even m) := by
  have htwo := hf.pow_precision
  by_cases hcarried : k = 2 ^ f.precision
  · have hhalf : 2 ^ f.precision / 2 = 2 ^ (f.precision - 1) := by
      rw [htwo, Nat.mul_div_cancel _ two_pos]
    refine ⟨2 ^ (f.precision - 1), e + 1, ?_, ?_, ?_, fun _ => ?_⟩
    · simp only [assemble, Nat.pow_eq, hcarried, beq_self_eq_true, if_true, hhalf]
      exact if_neg (by omega)
    · exact {
        significand := by
          rw [htwo]
          exact lt_mul_of_one_lt_right (by positivity) one_lt_two
        least := by omega
        greatest := by omega
        normal := .inl le_rfl }
    · rw [hcarried, htwo, zpow_add_one₀ two_ne_zero]
      push_cast
      ring
    · exact even_two.pow_of_ne_zero (Nat.sub_ne_zero_of_lt hf.precision)
  · have hbeq : (k == 2 ^ f.precision) = false := beq_eq_false_iff_ne.mpr hcarried
    refine ⟨k, e, ?_, ⟨lt_of_le_of_ne hk hcarried, hleast, hgreatest.le, hnormal⟩, rfl, id⟩
    simp only [assemble, Nat.pow_eq, hbeq, Bool.false_eq_true, if_false]
    exact if_neg (by omega)

theorem isNearest_zero (hf : f.Regular) (negative : Bool) :
    (zero negative : Binary f).IsNearest 0 := by
  have hvalue : valueOf negative 0 f.minExponent = 0 := by
    cases negative <;> simp [valueOf, withSign]
  refine .finite ⟨by positivity, le_rfl, hf.exponents.le, .inr rfl⟩ fun negative' m' e' _ => ?_
  rw [hvalue, Preferred, sub_zero, abs_zero]
  obtain hlt | heq := (abs_nonneg (0 - valueOf negative' m' e')).lt_or_eq
  · exact .inl hlt
  · exact .inr ⟨heq, .inr Even.zero⟩

theorem isNearest_ofRatio (hf : f.Regular) {r : Ratio} (hbound : r.toRat < 2 ^ f.bias)
    (negative : Bool) : (ofRatio negative r : Binary f).IsNearest (withSign negative r.toRat) := by
  by_cases hnum : r.num = 0
  · have hzero : withSign negative r.toRat = 0 := by
      cases negative <;> simp [withSign, Ratio.toRat, hnum]
    rw [ofRatio, if_pos hnum, hzero]
    exact isNearest_zero hf negative
  · obtain ⟨hlow, hhigh⟩ := r.binaryMagnitude_spec (Nat.pos_of_ne_zero hnum)
    rw [ofRatio, if_neg hnum]
    let e := max (r.binaryMagnitude + 1 - f.precision) f.minExponent
    let scaled := r.scale 2 Nat.two_pos (-e)
    change (assemble negative scaled.round e : Binary f).IsNearest _
    have hunit : (0 : ℚ) < 2 ^ e := zpow_pos two_pos e
    have hscaled : scaled.toRat * 2 ^ e = r.toRat := by
      rw [Ratio.toRat_scale, mul_assoc, Nat.cast_ofNat, ← zpow_add₀ two_ne_zero,
        neg_add_cancel, zpow_zero, mul_one]
    have hround := scaled.isNearestInt_round
    have htop : scaled.toRat < (2 ^ f.precision : Int) := by
      refine lt_of_mul_lt_mul_right ?_ hunit.le
      rw [hscaled, Int.cast_pow, Int.cast_ofNat, ← zpow_natCast, ← zpow_add₀ two_ne_zero]
      refine hhigh.trans_le (zpow_le_zpow_right₀ one_le_two ?_)
      have := le_max_left (r.binaryMagnitude + 1 - f.precision) f.minExponent
      omega
    have hnormal : (2 ^ (f.precision - 1) : Int) ≤ scaled.toRat ∨ e = f.minExponent := by
      refine (max_choice _ f.minExponent).imp_left fun he => ?_
      refine le_of_mul_le_mul_right ?_ hunit
      rw [hscaled, Int.cast_pow, Int.cast_ofNat, ← zpow_natCast, ← zpow_add₀ two_ne_zero]
      refine le_trans (zpow_le_zpow_right₀ one_le_two ?_) hlow
      have := hf.precision
      omega
    have hgreatest : e < f.maxExponent := by
      have hmagnitude : r.binaryMagnitude < f.bias :=
        (zpow_lt_zpow_iff_right₀ one_lt_two).mp (hlow.trans_lt hbound)
      refine max_lt ?_ hf.exponents
      rw [Format.maxExponent]
      omega
    obtain ⟨m, e', hassemble, hdatum, hvalue, heven⟩ := exists_assemble hf negative
      (by exact_mod_cast hround.le_of_lt htop) (le_max_right _ _) hgreatest
      (hnormal.imp_left fun h => by exact_mod_cast hround.ge_of_ge h)
    rw [hassemble]
    refine .finite hdatum fun negative' m' e'' hother => ?_
    rw [valueOf, hvalue, ← hscaled]
    refine .withSign negative ?_
    rw [withSign_valueOf]
    have hpreferred := preferred_datum hf hround
      (hnormal.imp_left fun h => by exact_mod_cast h) hother (negative != negative')
    exact_mod_cast hpreferred.mono fun h => heven (by exact_mod_cast h)

theorem isNearest_ofInt (hf : f.Regular) {v : Int} (hbound : |(v : ℚ)| < 2 ^ f.bias) :
    (ofInt v : Binary f).IsNearest v := by
  let r : Ratio := { num := v.natAbs, den := 1 }
  have htoRat : r.toRat = |(v : ℚ)| := by
    simp [r, Ratio.toRat]
  have hvalue : withSign (v < 0) r.toRat = v := by
    rw [htoRat, withSign]
    split
    · rename_i hneg
      rw [abs_of_neg (by exact_mod_cast of_decide_eq_true hneg), neg_neg]
    · rename_i hneg
      exact abs_of_nonneg (by exact_mod_cast not_lt.mp fun h => hneg (decide_eq_true h))
  have hnearest := isNearest_ofRatio hf (htoRat ▸ hbound) (v < 0)
  rwa [hvalue] at hnearest

theorem toRat_magnitudeOf (m : Nat) (e : Int) : (magnitudeOf m e).toRat = m * 2 ^ e := by
  rw [magnitudeOf, Ratio.toRat_scale, Ratio.toRat, Nat.cast_one, div_one, Nat.cast_ofNat]

theorem isNearest_mul (hf : f.Regular) {x y : Binary f} {a b : ℚ} (hx : x.toRat? = some a)
    (hy : y.toRat? = some b) (hbound : |a * b| < 2 ^ f.bias) : (x.mul y).IsNearest (a * b) := by
  cases x with
  | nan | infinite => cases hx
  | finite n m e =>
    cases y with
    | nan | infinite => cases hy
    | finite n' m' e' =>
        cases hx
        cases hy
        have htoRat : (magnitudeOf (m * m') (e + e')).toRat = m * 2 ^ e * (m' * 2 ^ e') := by
          rw [toRat_magnitudeOf, zpow_add₀ two_ne_zero, Nat.cast_mul, mul_mul_mul_comm]
        rw [valueOf, valueOf, withSign_mul_withSign, abs_withSign, ← htoRat] at hbound
        rw [valueOf, valueOf, withSign_mul_withSign, ← htoRat]
        exact isNearest_ofRatio hf ((le_abs_self _).trans_lt hbound) _

namespace IsNearest

variable {q : ℚ} {x : Binary f}

theorem exists_toRat? (hf : f.Regular) (h : x.IsNearest q) :
    ∃ a, x.toRat? = some a ∧ |a| ≤ 2 * |q| := by
  obtain ⟨hdatum, hnearest⟩ := h
  rename_i negative m e
  refine ⟨_, rfl, ?_⟩
  have hzero := (hnearest false 0 f.minExponent
    ⟨by positivity, le_rfl, hf.exponents.le, .inr rfl⟩).le
  have hvalue : valueOf false 0 f.minExponent = 0 := by simp [valueOf, withSign]
  rw [hvalue, sub_zero] at hzero
  have htriangle := abs_sub_abs_le_abs_sub (valueOf negative m e) q
  rw [abs_sub_comm] at htriangle
  linarith

theorem toRat?_eq {negative : Bool} {m : Nat} {e : Int} (hdatum : f.IsDatum m e)
    (h : x.IsNearest (valueOf negative m e)) : x.toRat? = some (valueOf negative m e) := by
  obtain ⟨-, hnearest⟩ := h
  have hself := (hnearest negative m e hdatum).le
  rw [sub_self, abs_zero] at hself
  rw [toRat?, ← sub_eq_zero.mp (abs_nonpos_iff.mp hself)]

theorem neg (h : x.IsNearest q) : x.neg.IsNearest (-q) := by
  obtain ⟨hdatum, hnearest⟩ := h
  rename_i negative m e
  refine .finite hdatum fun negative' m' e' hdatum' => ?_
  have hneg := (hnearest (!negative') m' e' hdatum').neg
  rwa [← valueOf_not, ← valueOf_not, Bool.not_not] at hneg

end IsNearest

/-- One unit above a datum with an even significand there is another datum. -/
theorem exists_next (hf : f.Regular) {m : Nat} {e : Int} (hdatum : f.IsDatum m e) (heven : Even m)
    (negative : Bool) :
    ∃ negative' m' e', f.IsDatum m' e' ∧
      valueOf negative' m' e' = valueOf negative m e + 2 ^ e := by
  have hunit : (2 : ℚ) ^ e = 2 ^ (e - 1) * 2 := by
    rw [← zpow_add_one₀ two_ne_zero, sub_add_cancel]
  have htwo := hf.pow_precision
  have hhalf : 2 ≤ 2 ^ (f.precision - 1) :=
    Nat.le_self_pow (Nat.sub_ne_zero_of_lt hf.precision) 2
  obtain ⟨j, rfl⟩ := heven
  have hshort := hdatum.significand
  by_cases hup : negative = false ∨ j = 0
  · refine ⟨false, j + j + 1, e, ⟨by omega, hdatum.least, hdatum.greatest, ?_⟩, ?_⟩
    · exact hdatum.normal.imp_left Nat.le_succ_of_le
    · obtain rfl | rfl := hup
      · simp only [valueOf, withSign, Bool.false_eq_true, if_false]
        push_cast
        ring
      · cases negative <;> simp [valueOf, withSign]
  · rw [not_or, Bool.not_eq_false] at hup
    obtain ⟨rfl, hpos⟩ := hup
    by_cases hnormal : 2 ^ (f.precision - 1) ≤ j + j - 1 ∨ e = f.minExponent
    · refine ⟨true, j + j - 1, e, ⟨by omega, hdatum.least, hdatum.greatest, hnormal⟩, ?_⟩
      rw [valueOf, valueOf, Nat.cast_sub (by omega)]
      simp only [withSign, if_true]
      push_cast
      ring
    · rw [not_or] at hnormal
      have hleast := hdatum.least
      have hgreatest := hdatum.greatest
      have hm : j + j = 2 ^ (f.precision - 1) := by
        have := hdatum.normal.resolve_right hnormal.2
        omega
      refine ⟨true, (j + j - 1) * 2, e - 1, ⟨by omega, by omega, by omega, .inl (by omega)⟩, ?_⟩
      rw [valueOf, valueOf, Nat.cast_mul, Nat.cast_sub (by omega), hunit]
      simp only [withSign, if_true]
      push_cast
      ring

/-- Between two data with even significands there is another one, so they are not as near. -/
theorem not_lt_of_isNearest (hf : f.Regular) {q : ℚ} {negative negative' : Bool} {m m' : Nat}
    {e e' : Int} (h : (finite negative m e : Binary f).IsNearest q)
    (h' : (finite negative' m' e' : Binary f).IsNearest q) (hle : e ≤ e') :
    ¬ valueOf negative m e < valueOf negative' m' e' := by
  intro hlt
  have hunit : (0 : ℚ) < 2 ^ e := zpow_pos two_pos e
  obtain ⟨hdatum, hnearest⟩ := h
  obtain ⟨hdatum', hnearest'⟩ := h'
  have hx := hnearest negative' m' e' hdatum'
  have hy := hnearest' negative m e hdatum
  have heq := le_antisymm hx.le hy.le
  have heven : Even m := (hx.resolve_left heq.not_lt).2.resolve_left hlt.ne
  have heven' : Even m' := (hy.resolve_left heq.symm.not_lt).2.resolve_left hlt.ne'
  obtain ⟨a, ha, haEven⟩ := exists_units negative m (le_refl e)
  obtain ⟨b, hb, hbEven⟩ := exists_units negative' m' hle
  obtain ⟨negative'', m'', e'', hdatum'', hnext⟩ := exists_next hf hdatum heven negative
  have hbetween : valueOf negative'' m'' e'' < valueOf negative' m' e' := by
    rw [ha, hb] at hlt
    have hab : a < b := by exact_mod_cast lt_of_mul_lt_mul_right hlt hunit.le
    obtain ⟨i, rfl⟩ := haEven heven
    obtain ⟨j, rfl⟩ := hbEven heven'
    rw [hnext, ha, hb, ← add_one_mul]
    exact mul_lt_mul_of_pos_right (by exact_mod_cast (by omega : i + i + 1 < j + j)) hunit
  have hmid : q - valueOf negative m e = valueOf negative' m' e' - q := by
    obtain heq | heq := abs_eq_abs.mp heq
    · exact absurd hlt (by linarith)
    · linarith
  have hle := (hnearest negative'' m'' e'' hdatum'').le
  rw [abs_of_pos (by linarith), le_abs] at hle
  obtain hle | hle := hle <;> linarith

theorem valueOf_eq_of_isNearest (hf : f.Regular) {q : ℚ} {negative negative' : Bool} {m m' : Nat}
    {e e' : Int} (h : (finite negative m e : Binary f).IsNearest q)
    (h' : (finite negative' m' e' : Binary f).IsNearest q) (hle : e ≤ e') :
    valueOf negative m e = valueOf negative' m' e' := by
  have hbelow := not_lt_of_isNearest hf h h' hle
  have habove := not_lt_of_isNearest hf h.neg h'.neg hle
  rw [valueOf_not, valueOf_not, neg_lt_neg_iff] at habove
  exact le_antisymm (not_lt.mp habove) (not_lt.mp hbelow)

theorem IsNearest.unique (hf : f.Regular) {q : ℚ} {x y : Binary f} (hx : x.IsNearest q)
    (hy : y.IsNearest q) : x.toRat? = y.toRat? := by
  cases x with
  | nan | infinite => cases hx
  | finite negative m e =>
    cases y with
    | nan | infinite => cases hy
    | finite negative' m' e' =>
        refine congrArg some ?_
        obtain hle | hle := le_total e e'
        · exact valueOf_eq_of_isNearest hf hx hy hle
        · exact (valueOf_eq_of_isNearest hf hy hx hle).symm

end Binary

end Stencil
