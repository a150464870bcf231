import Stencil.Number.Binary

namespace Stencil

/-- A decimal `d.ddd… * 10 ^ exponent`, its significant digits as one natural. -/
structure Scientific where
  digits : Nat
  exponent : Int
  deriving DecidableEq

/-- The positive ratio `r` rounded to `precision` significant digits, a half to even. -/
def Ratio.scientific (r : Ratio) (precision : Nat) : Scientific :=
  let exponent := r.decimalMagnitude
  let digits := (r.scale 10 Ratio.ten_pos ((precision : Int) - 1 - exponent)).round
  if digits == Nat.pow 10 precision then
    { digits := Nat.pow 10 (precision - 1), exponent := exponent + 1 }
  else { digits, exponent }

namespace General

/-- So many digits behind the point can be formatted at most: their count has to fit in 16 bits. -/
def mostPlaces : Nat := 65535

end General

/-- The positive ratio `r` rounded to one digit in front of the point and `places` behind it, unless
these are more than can be formatted. -/
def Ratio.scientific? (r : Ratio) (places : Nat) : Option Scientific :=
  if places ≤ General.mostPlaces then some (r.scientific (places + 1)) else none

theorem Ratio.scientific?_eq_some_iff {r : Ratio} {places : Nat} {s : Scientific} :
    r.scientific? places = some s ↔
      places ≤ General.mostPlaces ∧ r.scientific (places + 1) = s := by
  rw [scientific?]
  split
  · rename_i hplaces
    rw [Option.some.injEq, and_iff_right hplaces]
  · rename_i hplaces
    exact iff_of_false nofun fun h => hplaces h.1

namespace General

def leastPositional : Int := -4

def zeros (n : Nat) : List Char :=
  List.replicate n '0'

def significant (digits : Nat) : List Char :=
  ((Nat.toDigits 10 digits).reverse.dropWhile (· == '0')).reverse

def exponentText (exponent : Int) : List Char :=
  let digits := Nat.toDigits 10 exponent.natAbs
  (if exponent < 0 then '-' else '+') :: zeros (2 - digits.length) ++ digits

/-- `digits`, with a point after the first `n` of them if more follow. -/
def pointAfter (n : Nat) (digits : List Char) : List Char :=
  if digits.length ≤ n then digits else digits.take n ++ '.' :: digits.drop n

/-- The count of digits that exponents are compared with: cut to 32 bits, with a sign. A count from
`2 ^ 31` on may come out negative, but none of those that can be formatted is changed. -/
def cutCount (precision : Nat) : Int :=
  Int.bmod precision (Nat.pow 2 32)

theorem cutCount_of_lt {precision : Nat} (h : precision < 2147483648) :
    cutCount precision = precision := by
  have hhalf : ((Nat.pow 2 32 : Nat) + 1 : Int) / 2 = 2147483648 := by decide
  exact Int.bmod_eq_of_le (by omega) (by omega)

def layout (precision : Nat) (digits : List Char) (exponent : Int) : List Char :=
  if exponent < leastPositional ∨ cutCount precision ≤ exponent then
    pointAfter 1 digits ++ 'E' :: exponentText exponent
  else if 0 ≤ exponent then
    let integral := exponent.toNat + 1
    pointAfter integral digits ++ zeros (integral - digits.length)
  else
    '0' :: '.' :: zeros (-exponent - 1).toNat ++ digits

def magnitudeText? (precision : Nat) (r : Ratio) : Option (List Char) :=
  (r.scientific? (precision - 1)).map fun s =>
    layout precision (significant s.digits) s.exponent

end General

/-- `x` with at most `precision` significant digits, unless these are more than can be formatted. -/
def Binary.general? {f : Format} (precision : Nat) : Binary f → Option String
  | .nan => some "NaN"
  | .infinite negative => some (if negative then "-Infinity" else "Infinity")
  | .finite negative m e =>
      if m = 0 then some "0"
      else
        (General.magnitudeText? (max precision 1) (magnitudeOf m e)).map fun text =>
          String.ofList (if negative then '-' :: text else text)

/-- The text for counts that can be formatted, as those of all shown numbers can. -/
def Binary.general {f : Format} (precision : Nat) (x : Binary f) : String :=
  (x.general? precision).getD ""

namespace Binary

variable {f : Format} {precision : Nat} {x : Binary f}

theorem general_of_general? {text : String} (h : x.general? precision = some text) :
    x.general precision = text := by
  rw [general, h, Option.getD_some]

theorem general?_eq_some (h : precision ≤ General.mostPlaces) :
    x.general? precision = some (x.general precision) := by
  have hsome : ∃ text, x.general? precision = some text := by
    cases x with
    | nan => exact ⟨_, rfl⟩
    | infinite negative => exact ⟨_, rfl⟩
    | finite negative m e =>
        have hplaces : max precision 1 - 1 ≤ General.mostPlaces := by omega
        rw [general?, General.magnitudeText?, Ratio.scientific?, if_pos hplaces]
        split
        · exact ⟨_, rfl⟩
        · exact ⟨_, rfl⟩
  obtain ⟨text, htext⟩ := hsome
  rw [htext, general_of_general? htext]

end Binary

end Stencil
