namespace Stencil

/-- The quotient `num / den` rounded to the nearest integer; a half goes to the even neighbour. -/
def divNearest (num den : Nat) : Nat :=
  let quotient := num / den
  let remainder := num % den
  if 2 * remainder < den then quotient
  else if den < 2 * remainder then quotient + 1
  else quotient + quotient % 2

structure Ratio where
  num : Nat
  den : Nat
  den_pos : 0 < den := by decide

namespace Ratio

theorem ten_pos : 0 < 10 :=
  Nat.succ_pos 9

/-- `r.scale b hb e` is `r * b ^ e`. -/
def scale (r : Ratio) (base : Nat) (base_pos : 0 < base) (exponent : Int) : Ratio :=
  match exponent with
  | .ofNat n => { r with num := r.num * base.pow n }
  | .negSucc n =>
      { num := r.num
        den := r.den * base.pow (n + 1)
        den_pos := Nat.mul_pos r.den_pos (Nat.pow_pos base_pos) }

def round (r : Ratio) : Nat :=
  divNearest r.num r.den

/-- The greatest `e` with `base ^ e ≤ r`, for a positive `r`. `size n` is the number of digits of
`n` in the base, so the difference of the sizes is `e` or `e + 1`. -/
def magnitude (r : Ratio) (base : Nat) (base_pos : 0 < base) (size : Nat → Nat) : Int :=
  let estimate : Int := (size r.num : Int) - size r.den
  let scaled := r.scale base base_pos (-estimate)
  if scaled.den ≤ scaled.num then estimate else estimate - 1

def binaryMagnitude (r : Ratio) : Int :=
  r.magnitude 2 Nat.two_pos fun n => n.log2 + 1

def decimalMagnitude (r : Ratio) : Int :=
  r.magnitude 10 Ratio.ten_pos fun n => (Nat.toDigits 10 n).length

end Ratio

end Stencil
