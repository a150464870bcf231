import Stencil.Number.General
import Stencil.Number.Numeral
import Stencil.Proofs.Numerals
import Stencil.Proofs.Rounding

namespace Stencil

theorem Numeral.pow_le_iff {n : Nat} (hn : 0 < n) (k : Nat) :
    10 ^ k ≤ n ↔ k < (Nat.toDigits 10 n).length := by
  cases k with
  | zero => exact iff_of_true hn (List.length_pos_iff.mpr Nat.toDigits_ne_nil)
  | succ k => rw [← not_lt, ← Nat.length_toDigits_le_iff (by decide) k.succ_pos, not_le]

namespace Ratio

theorem counts_toDigits : Counts 10 fun n => (Nat.toDigits 10 n).length := by
  intro n hn
  obtain ⟨c, rest, hdigits, -⟩ := Numeral.toDigits_eq_cons n
  have hlength : (Nat.toDigits 10 n).length = rest.length + 1 := by
    rw [hdigits, List.length_cons]
  have hle : 10 ^ rest.length ≤ n := (Numeral.pow_le_iff hn _).mpr (by omega)
  have hlt : n < 10 ^ (rest.length + 1) :=
    not_le.mp fun h => absurd ((Numeral.pow_le_iff hn _).mp h) (by omega)
  dsimp only
  rw [hlength, zpow_natCast, pow_succ]
  constructor
  · exact_mod_cast Nat.mul_le_mul_right 10 hle
  · exact_mod_cast hlt

theorem decimalMagnitude_spec (r : Ratio) (hnum : 0 < r.num) :
    (10 : ℚ) ^ r.decimalMagnitude ≤ r.toRat ∧ r.toRat < 10 ^ (r.decimalMagnitude + 1) :=
  r.magnitude_spec (by decide) counts_toDigits hnum

end Ratio

/-- `s` has `precision` digits, the first of which is not zero, and of all integers in the unit of
its last place none is nearer to `q`; a half has gone to an even last digit. -/
structure Scientific.Rounds (s : Scientific) (q : ℚ) (precision : Nat) : Prop where
  first : 10 ^ (precision - 1) ≤ s.digits
  last : s.digits < 10 ^ precision
  nearest : IsNearestInt (q * 10 ^ ((precision : Int) - 1 - s.exponent)) s.digits

def Scientific.toRat (s : Scientific) (precision : Nat) : ℚ :=
  s.digits * 10 ^ (s.exponent - (precision - 1))

/-- A multiple of ten that is nearest is so in the tenfold unit too. -/
theorem IsNearestInt.tenth {t : ℚ} {k : Int} (h : IsNearestInt t (k * 10)) :
    IsNearestInt (t / 10) k := by
  refine isNearestInt_of_lt ?_
  have hscaled : t / 10 - k = (t - (k * 10 : Int)) / 10 := by
    push_cast
    ring
  rw [hscaled, abs_div, abs_of_pos (by norm_num : (0 : ℚ) < 10)]
  linarith [h.close]

theorem zpow_mul_zpow_eq {a b : Int} {n : Nat} (h : a + b = n) :
    (10 : ℚ) ^ a * 10 ^ b = ((10 ^ n : Nat) : ℚ) := by
  rw [← zpow_add₀ (by norm_num), h, zpow_natCast, Nat.cast_pow, Nat.cast_ofNat]

theorem Ratio.inUnits_bounds (r : Ratio) (hnum : 0 < r.num) {precision : Nat}
    (hprecision : 0 < precision) :
    let inUnits := r.toRat * 10 ^ ((precision : Int) - 1 - r.decimalMagnitude)
    ((10 ^ (precision - 1) : Nat) : ℚ) ≤ inUnits ∧ inUnits < ((10 ^ precision : Nat) : ℚ) := by
  intro inUnits
  let unit : Int := (precision : Int) - 1 - r.decimalMagnitude
  have hunit : (0 : ℚ) < 10 ^ unit := zpow_pos (by norm_num) unit
  have hfirst : r.decimalMagnitude + unit = (precision - 1 : Nat) := by omega
  have hlast : r.decimalMagnitude + 1 + unit = precision := by omega
  obtain ⟨hlow, hhigh⟩ := r.decimalMagnitude_spec hnum
  constructor
  · rw [← zpow_mul_zpow_eq hfirst]
    exact mul_le_mul_of_nonneg_right hlow hunit.le
  · rw [← zpow_mul_zpow_eq hlast]
    exact mul_lt_mul_of_pos_right hhigh hunit

theorem Ratio.rounds_scientific (r : Ratio) (hnum : 0 < r.num) {precision : Nat}
    (hprecision : 0 < precision) : (r.scientific precision).Rounds r.toRat precision := by
  let unit : Int := (precision : Int) - 1 - r.decimalMagnitude
  let digits := (r.scale 10 ten_pos unit).round
  have hnearest : IsNearestInt (r.toRat * 10 ^ unit) digits := by
    have h := (r.scale 10 ten_pos unit).isNearestInt_round
    rwa [r.toRat_scale] at h
  obtain ⟨hleast, hgreatest⟩ := r.inUnits_bounds hnum hprecision
  have hfirst : 10 ^ (precision - 1) ≤ digits :=
    Int.ofNat_le.mp (hnearest.ge_of_ge (by exact_mod_cast hleast))
  have hlast : digits ≤ 10 ^ precision :=
    Int.ofNat_le.mp (hnearest.le_of_lt (by exact_mod_cast hgreatest))
  simp only [scientific, Nat.pow_eq]
  split
  · -- all digits were nines, and the carry makes one more of them
    rename_i hcarried
    have hdigits : digits = 10 ^ (precision - 1) * 10 := by
      rw [← pow_succ, Nat.sub_add_cancel hprecision]
      exact beq_iff_eq.mp hcarried
    have htenfold : (10 : ℚ) ^ ((precision : Int) - 1 - (r.decimalMagnitude + 1)) =
        10 ^ unit / 10 := by
      rw [div_eq_mul_inv, ← zpow_sub_one₀ (by norm_num)]
      congr 1
      omega
    refine ⟨le_refl _, Nat.pow_lt_pow_right (by decide) (Nat.sub_one_lt_of_lt hprecision), ?_⟩
    rw [htenfold, ← mul_div_assoc]
    rw [hdigits, Nat.cast_mul] at hnearest
    exact hnearest.tenth
  · rename_i hround
    exact ⟨hfirst, lt_of_le_of_ne hlast fun heq => hround (beq_iff_eq.mpr heq), hnearest⟩

namespace Binary

variable {m : Nat} (hm : m ≠ 0) (e : Int)
include hm

theorem magnitude_pos : (0 : ℚ) < m * 2 ^ e :=
  mul_pos (Nat.cast_pos.mpr (Nat.pos_of_ne_zero hm)) (zpow_pos two_pos e)

theorem num_magnitudeOf_pos : 0 < (magnitudeOf m e).num := by
  rw [Nat.pos_iff_ne_zero]
  intro hzero
  have hpos := magnitude_pos hm e
  rw [← toRat_magnitudeOf, Ratio.toRat, hzero, Nat.cast_zero, zero_div] at hpos
  exact lt_irrefl _ hpos

theorem valueOf_lt_zero_iff (negative : Bool) : valueOf negative m e < 0 ↔ negative = true := by
  have hpos := magnitude_pos hm e
  cases negative with
  | false => exact iff_of_false hpos.le.not_gt nofun
  | true => exact iff_of_true (neg_lt_zero.mpr hpos) rfl

end Binary

namespace Numeral

theorem value_zeros_append (n : Nat) (digits : List Char) :
    value (General.zeros n ++ digits) = value digits :=
  value_replicate_append n digits

theorem value_append_zeros (digits : List Char) (n : Nat) :
    value (digits ++ General.zeros n) = value digits * 10 ^ n := by
  change Nat.ofDigitChars 10 _ 0 = Nat.ofDigitChars 10 digits 0 * 10 ^ n
  rw [General.zeros, Nat.ofDigitChars_append, Nat.ofDigitChars_replicate_zero, Nat.mul_comm]

def Decimal.toRat (d : Decimal) : ℚ :=
  withSign d.negative (d.digits * 10 ^ d.exponent)

end Numeral

namespace General

open Numeral

@[simp] theorem length_zeros (n : Nat) : (zeros n).length = n :=
  List.length_replicate

theorem isDigit_of_mem_zeros {n : Nat} {c : Char} (h : c ∈ zeros n) : c.isDigit = true :=
  isDigit_of_mem_replicate h

theorem exists_zeros (n : Nat) : ∃ k, Nat.toDigits 10 n = significant n ++ zeros k := by
  let trailing := (Nat.toDigits 10 n).reverse.takeWhile (· == '0')
  have hsplit : (Nat.toDigits 10 n).reverse =
      trailing ++ (Nat.toDigits 10 n).reverse.dropWhile (· == '0') :=
    List.takeWhile_append_dropWhile.symm
  have hzeros : trailing = zeros trailing.length :=
    List.eq_replicate_iff.mpr ⟨rfl, fun _ hc =>
      beq_iff_eq.mp (List.mem_takeWhile_imp (p := (· == '0')) hc)⟩
  refine ⟨trailing.length, ?_⟩
  have hreversed := congrArg List.reverse hsplit
  rw [List.reverse_reverse, List.reverse_append, hzeros, zeros, List.reverse_replicate] at hreversed
  exact hreversed

theorem getLast?_significant (n : Nat) : (significant n).getLast? ≠ some '0' := by
  rw [significant, List.getLast?_reverse]
  intro hhead
  have hnot := List.head?_dropWhile_not (· == '0') (Nat.toDigits 10 n).reverse
  rw [hhead] at hnot
  exact absurd hnot (by decide)

theorem isDigit_of_mem_significant {n : Nat} {c : Char} (h : c ∈ significant n) :
    c.isDigit = true := by
  obtain ⟨k, hk⟩ := exists_zeros n
  exact isDigit_of_mem_toDigits (hk ▸ List.mem_append_left _ h)

theorem value_significant {n k : Nat} (hk : Nat.toDigits 10 n = significant n ++ zeros k) :
    n = value (significant n) * 10 ^ k := by
  rw [← value_append_zeros, ← hk, value_toDigits]

theorem significant_ne_nil {n : Nat} (hn : 0 < n) : significant n ≠ [] := by
  intro hnil
  obtain ⟨k, hk⟩ := exists_zeros n
  have hvalue := value_significant hk
  rw [hnil] at hvalue
  have hzero : value [] * 10 ^ k = 0 := Nat.zero_mul _
  omega

end General

theorem Scientific.Rounds.toRat_eq {s : Scientific} {q : ℚ} {precision : Nat}
    (h : s.Rounds q precision) (hprecision : 0 < precision) :
    s.toRat precision = Numeral.value (General.significant s.digits) *
      10 ^ (s.exponent + 1 - (General.significant s.digits).length) := by
  obtain ⟨k, hk⟩ := General.exists_zeros s.digits
  have hpos : 0 < s.digits := lt_of_lt_of_le (by positivity) h.first
  have hlength : (Nat.toDigits 10 s.digits).length = precision := by
    have hlow := (Numeral.pow_le_iff hpos _).mp h.first
    have hhigh := mt (Numeral.pow_le_iff hpos _).mpr (not_le.mpr h.last)
    omega
  have hvalue : (s.digits : ℚ) = Numeral.value (General.significant s.digits) * 10 ^ (k : Int) := by
    rw [zpow_natCast]
    exact_mod_cast General.value_significant hk
  rw [hk, List.length_append, General.length_zeros] at hlength
  rw [toRat, hvalue, mul_assoc, ← zpow_add₀ (by norm_num)]
  congr 2
  omega

/-- Digits in front of the point and behind it, and the sign and the digits of an exponent. -/
structure Figure where
  negative : Bool
  integral : List Char
  fraction : List Char
  exponent : Option (Bool × List Char)

namespace Figure

open General Numeral

/-- There is a digit in front of the point, no needless zero behind it, and the exponent has at
least two digits. -/
structure Proper (f : Figure) : Prop where
  integral_ne : f.integral ≠ []
  integral : ∀ c ∈ f.integral, c.isDigit = true
  fraction_last : f.fraction.getLast? ≠ some '0'
  fraction : ∀ c ∈ f.fraction, c.isDigit = true
  exponent_length : ∀ negative digits, f.exponent = some (negative, digits) → 2 ≤ digits.length
  exponent : ∀ negative digits, f.exponent = some (negative, digits) →
    ∀ c ∈ digits, c.isDigit = true

def pointed : List Char → List Char
  | [] => []
  | fraction => '.' :: fraction

def exponentChars : Option (Bool × List Char) → List Char
  | none => []
  | some (negative, digits) => 'E' :: (if negative then '-' else '+') :: digits

def unsignedChars (f : Figure) : List Char :=
  f.integral ++ (pointed f.fraction ++ exponentChars f.exponent)

def chars (f : Figure) : List Char :=
  if f.negative then '-' :: f.unsignedChars else f.unsignedChars

def exponentValue : Option (Bool × List Char) → Int
  | none => 0
  | some (negative, digits) => if negative then -(value digits : Int) else value digits

def decimal (f : Figure) : Decimal where
  negative := f.negative
  digits := value (f.integral ++ f.fraction)
  exponent := exponentValue f.exponent - f.fraction.length

section Reading

variable {f : Figure}

theorem stops_exponentChars : Template.Stops Char.isDigit (exponentChars f.exponent) := by
  cases f.exponent with
  | none => exact .nil
  | some exponent => exact .cons (by decide) _

variable (h : f.Proper)
include h

theorem exponent?_exponentChars :
    exponent? (exponentChars f.exponent) = some (exponentValue f.exponent) := by
  cases hexponent : f.exponent with
  | none => rfl
  | some exponent =>
      obtain ⟨negative, digits⟩ := exponent
      have hne : digits ≠ [] :=
        List.ne_nil_of_length_pos (Nat.zero_lt_of_lt (h.exponent_length _ _ hexponent))
      have hnatural := natural?_of_isDigit hne (h.exponent _ _ hexponent)
      cases negative <;>
        simp [exponentChars, exponent?, integer?, splitSign, hnatural, exponentValue]

theorem splitFraction_pointed :
    splitFraction (pointed f.fraction ++ exponentChars f.exponent) =
      (f.fraction, exponentChars f.exponent) := by
  cases hfraction : f.fraction with
  | nil =>
      rw [pointed, List.nil_append]
      cases f.exponent <;> rfl
  | cons c rest =>
      exact stops_exponentChars.span_append fun d hd => h.fraction d (hfraction ▸ hd)

theorem span_unsignedChars :
    f.unsignedChars.span Char.isDigit =
      (f.integral, pointed f.fraction ++ exponentChars f.exponent) := by
  have hstops : Template.Stops Char.isDigit (pointed f.fraction ++ exponentChars f.exponent) := by
    cases f.fraction with
    | nil => exact stops_exponentChars
    | cons c rest => exact .cons (by decide) _
  exact hstops.span_append h.integral

theorem splitSign_chars : splitSign f.chars = (f.negative, f.unsignedChars) := by
  cases hnegative : f.negative with
  | true => simp [chars, hnegative, splitSign]
  | false =>
      obtain ⟨c, rest, hintegral⟩ := List.exists_cons_of_ne_nil h.integral_ne
      have hc : c.isDigit = true := h.integral c (hintegral ▸ List.mem_cons_self)
      have hchars : f.chars = f.unsignedChars := by simp [chars, hnegative]
      rw [hchars, unsignedChars, hintegral, List.cons_append, splitSign_of_isDigit hc]

theorem decimal?_chars : decimal? f.chars = some f.decimal := by
  have hne : (f.integral ++ f.fraction).isEmpty = false := by
    simp [h.integral_ne]
  simp only [decimal?, splitSign_chars h, span_unsignedChars h, splitFraction_pointed h, hne,
    exponent?_exponentChars h]
  rfl

end Reading

/-- Digits that end in a significant one. -/
structure Significant (digits : List Char) : Prop where
  ne_nil : digits ≠ []
  isDigit : ∀ c ∈ digits, c.isDigit = true
  last : digits.getLast? ≠ some '0'

theorem significant_of_pos {n : Nat} (hn : 0 < n) : Significant (significant n) where
  ne_nil := significant_ne_nil hn
  isDigit _ := isDigit_of_mem_significant
  last := getLast?_significant n

/-- The figure is written like this, and denotes `d.ddd… * 10 ^ x` with these digits. -/
structure Lays (f : Figure) (digits : List Char) (x : Int) (text : List Char) : Prop where
  proper : f.Proper
  unsignedChars : f.unsignedChars = text
  toRat : f.decimal.toRat = withSign f.negative (value digits * 10 ^ (x + 1 - digits.length))

def exponential (negative : Bool) (digits : List Char) (x : Int) : Figure :=
  let places := Nat.toDigits 10 x.natAbs
  { negative
    integral := digits.take 1
    fraction := digits.drop 1
    exponent := some (decide (x < 0), zeros (2 - places.length) ++ places) }

def positional (negative : Bool) (digits : List Char) (n : Nat) : Figure where
  negative
  integral := digits.take n ++ zeros (n - digits.length)
  fraction := digits.drop n
  exponent := none

def fractional (negative : Bool) (digits : List Char) (n : Nat) : Figure where
  negative
  integral := ['0']
  fraction := zeros n ++ digits
  exponent := none

theorem pointed_of_ne_nil {fraction : List Char} (h : fraction ≠ []) :
    pointed fraction = '.' :: fraction := by
  obtain ⟨c, rest, rfl⟩ := List.exists_cons_of_ne_nil h
  rfl

theorem pointAfter_eq (n : Nat) (digits : List Char) :
    pointAfter n digits = digits.take n ++ pointed (digits.drop n) := by
  rw [pointAfter]
  split
  · rename_i hle
    rw [List.drop_eq_nil_of_le hle, List.take_of_length_le hle, pointed, List.append_nil]
  · rename_i hlt
    rw [pointed_of_ne_nil fun hnil => hlt (List.drop_eq_nil_iff.mp hnil)]

theorem exponentValue_natAbs (x : Int) (n : Nat) :
    exponentValue (some (decide (x < 0), zeros n ++ Nat.toDigits 10 x.natAbs)) = x := by
  simp only [exponentValue, value_zeros_append, value_toDigits, decide_eq_true_eq]
  split <;> omega

section

variable {digits : List Char} (h : Significant digits) (negative : Bool) {x : Int}
include h

theorem Significant.getLast?_drop (n : Nat) : (digits.drop n).getLast? ≠ some '0' := by
  rw [List.getLast?_drop]
  split
  · exact nofun
  · exact h.last

theorem lays_exponential :
    (exponential negative digits x).Lays digits x
      (pointAfter 1 digits ++ 'E' :: exponentText x) where
  proper := {
    integral_ne := by simp [exponential, h.ne_nil]
    integral := fun c hc => h.isDigit c (List.mem_of_mem_take hc)
    fraction_last := h.getLast?_drop 1
    fraction := fun c hc => h.isDigit c (List.mem_of_mem_drop hc)
    exponent_length := by
      rintro _ _ ⟨⟩
      rw [List.length_append, length_zeros]
      omega
    exponent := by
      rintro _ _ ⟨⟩ c hc
      exact isDigit_of_mem_led hc }
  unsignedChars := by
    simp [unsignedChars, exponential, pointAfter_eq, exponentChars, exponentText]
  toRat := by
    have hlength : 0 < digits.length := List.length_pos_iff.mpr h.ne_nil
    simp only [decimal, Decimal.toRat, exponential, List.take_append_drop, exponentValue_natAbs,
      List.length_drop]
    congr 3
    omega

theorem lays_positional {n : Nat} (hx : x = n) :
    (positional negative digits (n + 1)).Lays digits x
      (pointAfter (n + 1) digits ++ zeros (n + 1 - digits.length)) where
  proper := {
    integral_ne := by simp [positional, h.ne_nil]
    integral := fun c hc => (List.mem_append.mp hc).elim
      (fun hdigit => h.isDigit c (List.mem_of_mem_take hdigit)) isDigit_of_mem_zeros
    fraction_last := h.getLast?_drop _
    fraction := fun c hc => h.isDigit c (List.mem_of_mem_drop hc)
    exponent_length := nofun
    exponent := nofun }
  unsignedChars := by
    rw [pointAfter_eq]
    rcases le_total digits.length (n + 1) with hle | hle
    · simp [unsignedChars, positional, exponentChars, pointed, List.drop_eq_nil_of_le hle]
    · simp [unsignedChars, positional, exponentChars, zeros, Nat.sub_eq_zero_of_le hle]
  toRat := by
    have hexponent : x + 1 = (n + 1 : Nat) := by rw [hx, Nat.cast_succ]
    simp only [decimal, Decimal.toRat, positional, exponentValue, hexponent]
    rcases le_total digits.length (n + 1) with hle | hle
    · rw [List.drop_eq_nil_of_le hle, List.take_of_length_le hle, List.append_nil,
        value_append_zeros, Nat.cast_mul, Nat.cast_pow, Nat.cast_ofNat, ← Int.ofNat_sub hle,
        zpow_natCast]
      simp
    · have hzeros : zeros (n + 1 - digits.length) = [] := by rw [Nat.sub_eq_zero_of_le hle]; rfl
      rw [hzeros, List.append_nil, List.take_append_drop, List.length_drop]
      congr 3
      omega

theorem lays_fractional {n : Nat} (hx : x + 1 = -n) :
    (fractional negative digits n).Lays digits x ('0' :: '.' :: zeros n ++ digits) where
  proper := {
    integral_ne := List.cons_ne_nil _ _
    integral := by simp [fractional]
    fraction_last := by
      rw [fractional, List.getLast?_append_of_ne_nil _ h.ne_nil]
      exact h.last
    fraction := fun c hc =>
      (List.mem_append.mp hc).elim isDigit_of_mem_zeros (h.isDigit c)
    exponent_length := nofun
    exponent := nofun }
  unsignedChars := by
    have hne : zeros n ++ digits ≠ [] := List.append_ne_nil_of_right_ne_nil _ h.ne_nil
    simp [unsignedChars, fractional, exponentChars, pointed_of_ne_nil hne]
  toRat := by
    have hvalue : value (['0'] ++ (zeros n ++ digits)) = value digits :=
      (value_zeros_append 1 _).trans (value_zeros_append _ digits)
    simp only [decimal, Decimal.toRat, fractional, exponentValue, hvalue, List.length_append,
      length_zeros, hx]
    congr 3
    omega

end

/-- Every layout writes a figure; the one with an exponent is for the small and the great. -/
theorem exists_lays_layout {digits : List Char} (h : Significant digits) (negative : Bool)
    (precision : Nat) (x : Int) :
    ∃ f : Figure, f.negative = negative ∧ f.Lays digits x (layout precision digits x) ∧
      (f.exponent.isSome ↔ x < -4 ∨ cutCount precision ≤ x) := by
  by_cases hexponent : x < leastPositional ∨ cutCount precision ≤ x
  · refine ⟨exponential negative digits x, rfl, ?_, iff_of_true rfl hexponent⟩
    rw [layout, if_pos hexponent]
    exact lays_exponential h negative
  · by_cases hx : 0 ≤ x
    · refine ⟨positional negative digits (x.toNat + 1), rfl, ?_, iff_of_false nofun hexponent⟩
      rw [layout, if_neg hexponent, if_pos hx]
      exact lays_positional h negative (by omega)
    · refine ⟨fractional negative digits (-x - 1).toNat, rfl, ?_, iff_of_false nofun hexponent⟩
      rw [layout, if_neg hexponent, if_neg hx]
      exact lays_fractional h negative (by omega)

/-- A count of digits that no formatting takes is negative once it is cut. -/
example : layout 2147483648 ['1'] 0 = ['1', 'E', '+', '0', '0'] := by
  decide

end Figure

/-- A nonzero number that can be formatted with `precision` significant digits is rounded to them,
and its text denotes exactly what it was rounded to. The text has a minus sign if the number is
negative, no zero at the end of its fraction, no point without one, and an exponent only if the
exponent of the rounded number is below `-4` or not below `precision`. -/
theorem general_text_denotes_rounded {f : Format} (negative : Bool) (m : Nat) (e : Int)
    (hm : m ≠ 0) (precision : Nat) (hprecision : 0 < precision) {s : Scientific}
    (hs : (Binary.magnitudeOf m e).scientific? (precision - 1) = some s) :
    let x : Binary f := .finite negative m e
    let text := x.general precision
    s.Rounds (m * 2 ^ e) precision ∧ x.general? precision = some text ∧
    ∃ figure : Figure, figure.Proper ∧ text = String.ofList figure.chars ∧
      Numeral.decimal? text.toList = some figure.decimal ∧
      figure.decimal.toRat = withSign negative (s.toRat precision) ∧
      (figure.negative = true ↔ Binary.valueOf negative m e < 0) ∧
      (figure.exponent.isSome ↔ s.exponent < -4 ∨ (precision : Int) ≤ s.exponent) := by
  intro x text
  obtain ⟨hplaces, hrounded⟩ := Ratio.scientific?_eq_some_iff.mp hs
  rw [Nat.sub_add_cancel hprecision] at hrounded
  have hrounds :=
    (Binary.magnitudeOf m e).rounds_scientific (Binary.num_magnitudeOf_pos hm e) hprecision
  rw [Binary.toRat_magnitudeOf, hrounded] at hrounds
  have hpos : 0 < s.digits := lt_of_lt_of_le (by positivity) hrounds.first
  obtain ⟨figure, hnegative, hlays, hexponent⟩ :=
    Figure.exists_lays_layout (Figure.significant_of_pos hpos) negative precision s.exponent
  have hcut : General.cutCount precision = precision := by
    refine General.cutCount_of_lt ?_
    rw [General.mostPlaces] at hplaces
    omega
  rw [hcut] at hexponent
  have hshown : x.general? precision = some (String.ofList figure.chars) := by
    rw [Binary.general?, if_neg hm, Nat.max_eq_left (Nat.succ_le_of_lt hprecision),
      General.magnitudeText?, hs, Figure.chars, hnegative, hlays.unsignedChars]
    rfl
  have htext : text = String.ofList figure.chars := Binary.general_of_general? hshown
  refine ⟨hrounds, hshown.trans (congrArg some htext.symm), figure, hlays.proper, htext, ?_, ?_, ?_,
    hexponent⟩
  · rw [htext, String.toList_ofList]
    exact Figure.decimal?_chars hlays.proper
  · rw [hlays.toRat, hnegative, hrounds.toRat_eq hprecision]
  · rw [hnegative, Binary.valueOf_lt_zero_iff hm]

def nines : Nat :=
  7378547656097792

/-- A number just below `0.0001`: its first three digits are nines, and only the carry lifts it to an
exponent that is not written. -/
theorem general_text_denotes_rounded_carried :
    let r := Binary.magnitudeOf nines (-66)
    let s : Scientific := { digits := 100, exponent := -4 }
    let x : Double := .finite true nines (-66)
    let text := x.general 3
    nines ≠ 0 ∧ 0 < 3 ∧ r.decimalMagnitude = -5 ∧ r.scientific? (3 - 1) = some s ∧
    text = "-0.0001" ∧ s.Rounds (nines * 2 ^ (-66 : Int)) 3 ∧ x.general? 3 = some text ∧
    ∃ figure : Figure, figure.Proper ∧ text = String.ofList figure.chars ∧
      Numeral.decimal? text.toList = some figure.decimal ∧
      figure.decimal.toRat = -(1 / 10000) ∧ figure.negative = true ∧ figure.exponent = none := by
  intro r s x text
  have hnines : nines ≠ 0 := by decide
  have hs : r.scientific? (3 - 1) = some s := by decide +kernel
  obtain ⟨hrounds, hshown, figure, hproper, htext, hread, htoRat, hnegative, hform⟩ :=
    general_text_denotes_rounded (f := .double) true nines (-66) hnines 3 (by decide) hs
  refine ⟨hnines, by decide, by decide +kernel, hs, by decide +kernel, hrounds, hshown, figure,
    hproper, htext, hread, ?_, ?_, ?_⟩
  · rw [htoRat, Scientific.toRat, withSign]
    norm_num
  · exact hnegative.mpr ((Binary.valueOf_lt_zero_iff hnines (-66) true).mpr rfl)
  · exact Option.not_isSome_iff_eq_none.mp fun hsome => absurd (hform.mp hsome) (by decide)

end Stencil
