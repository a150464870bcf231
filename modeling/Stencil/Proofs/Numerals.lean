import Stencil.Proofs.Lexemes
import Stencil.Template.Expression

namespace Stencil.Numeral

def spelling (v : Int) : List Char :=
  if v < 0 then '-' :: Nat.toDigits 10 v.natAbs else Nat.toDigits 10 v.natAbs

theorem isDigit_of_mem_toDigits {n : Nat} {c : Char} (h : c ∈ Nat.toDigits 10 n) :
    c.isDigit = true :=
  Nat.isDigit_of_mem_toDigits (by decide) (by decide) h

theorem all_isDigit_toDigits (n : Nat) : (Nat.toDigits 10 n).all Char.isDigit = true :=
  List.all_eq_true.mpr fun _ h => isDigit_of_mem_toDigits h

theorem natural?_of_isDigit {digits : List Char} (hne : digits ≠ [])
    (h : ∀ c ∈ digits, c.isDigit = true) : natural? digits = some (value digits) := by
  simp [natural?, hne, List.all_eq_true.mpr h]

theorem value_toDigits (n : Nat) : value (Nat.toDigits 10 n) = n :=
  Nat.ofDigitChars_ten_toDigits

theorem isDigit_of_mem_replicate {n : Nat} {c : Char} (h : c ∈ List.replicate n '0') :
    c.isDigit = true := by
  obtain ⟨-, rfl⟩ := List.mem_replicate.mp h
  rfl

theorem value_replicate_append (n : Nat) (digits : List Char) :
    value (List.replicate n '0' ++ digits) = value digits := by
  change Nat.ofDigitChars 10 _ 0 = Nat.ofDigitChars 10 digits 0
  rw [Nat.ofDigitChars_append, Nat.ofDigitChars_replicate_zero, Nat.mul_zero]

theorem isDigit_of_mem_led {zeros n : Nat} {c : Char}
    (h : c ∈ List.replicate zeros '0' ++ Nat.toDigits 10 n) : c.isDigit = true :=
  (List.mem_append.mp h).elim isDigit_of_mem_replicate isDigit_of_mem_toDigits

theorem natural?_led (zeros n : Nat) :
    natural? (List.replicate zeros '0' ++ Nat.toDigits 10 n) = some n := by
  have hne : List.replicate zeros '0' ++ Nat.toDigits 10 n ≠ [] :=
    List.append_ne_nil_of_right_ne_nil _ Nat.toDigits_ne_nil
  rw [natural?_of_isDigit hne fun _ => isDigit_of_mem_led, value_replicate_append, value_toDigits]

theorem natural?_toDigits (n : Nat) : natural? (Nat.toDigits 10 n) = some n :=
  natural?_led 0 n

theorem toDigits_eq_cons (n : Nat) :
    ∃ c rest, Nat.toDigits 10 n = c :: rest ∧ c.isDigit = true := by
  cases h : Nat.toDigits 10 n with
  | nil => exact absurd h Nat.toDigits_ne_nil
  | cons c rest => exact ⟨c, rest, rfl, isDigit_of_mem_toDigits (h ▸ List.mem_cons_self)⟩

theorem splitSign_of_isDigit {c : Char} (hc : c.isDigit = true) (rest : List Char) :
    splitSign (c :: rest) = (false, c :: rest) := by
  rw [splitSign]
  · rintro _ ⟨⟩
    exact absurd hc (by decide)
  · rintro _ ⟨⟩
    exact absurd hc (by decide)

theorem splitSign_spelling (v : Int) :
    splitSign (spelling v) = (decide (v < 0), Nat.toDigits 10 v.natAbs) := by
  simp only [spelling]
  split
  · rename_i h
    simp [splitSign, h]
  · rename_i h
    obtain ⟨c, rest, hdigits, hc⟩ := toDigits_eq_cons v.natAbs
    rw [hdigits, splitSign_of_isDigit hc, decide_eq_false h]

theorem integer?_of_splitSign {v : Int} {text digits : List Char}
    (hsign : splitSign text = (decide (v < 0), digits))
    (hdigits : natural? digits = some v.natAbs) : integer? text = some v := by
  simp only [integer?, hsign, hdigits]
  change some (if decide (v < 0) = true then -(v.natAbs : Int) else v.natAbs) = some v
  rw [Option.some.injEq]
  by_cases hneg : v < 0
  · rw [if_pos (decide_eq_true hneg)]
    omega
  · rw [if_neg (by simpa using hneg)]
    omega

theorem integer?_spelling (v : Int) : integer? (spelling v) = some v :=
  integer?_of_splitSign (splitSign_spelling v) (natural?_toDigits _)

end Stencil.Numeral

namespace Stencil

/-- An integer with the kind that a numeral of it has: 32 bits if they hold it, else 64. -/
structure IntegerLiteral where
  kind : IntegerKind
  value : Int
  holds : kind.Holds value
  narrowest : kind = .int32 ∨ kind = .int64 ∧ ¬IntegerKind.int32.Holds value

namespace IntegerLiteral

def number (n : IntegerLiteral) : Number :=
  .integer n.kind n.value n.holds

def spelling (n : IntegerLiteral) : List Char :=
  Numeral.spelling n.value

theorem number?_value (n : IntegerLiteral) :
    (IntegerKind.int32.number? n.value <|> IntegerKind.int64.number? n.value) =
      some n.number := by
  obtain ⟨kind, value, holds, rfl | ⟨rfl, hwide⟩⟩ := n
  · simp [IntegerKind.number?, number, holds]
  · simp [IntegerKind.number?, number, holds, hwide]

theorem spelling_cases (n : IntegerLiteral) :
    n.spelling = '-' :: Nat.toDigits 10 n.value.natAbs ∨
      ∃ c rest, n.spelling = c :: rest ∧ c.isDigit = true ∧
        c :: rest = Nat.toDigits 10 n.value.natAbs := by
  by_cases hneg : n.value < 0
  · exact .inl (if_pos hneg)
  · obtain ⟨c, rest, hdigits, hc⟩ := Numeral.toDigits_eq_cons n.value.natAbs
    exact .inr ⟨c, rest, (if_neg hneg).trans hdigits, hc, hdigits.symm⟩

end IntegerLiteral

namespace Template

open Numeral

def opensNumeral (c : Char) : Bool :=
  c == '-' || c.isDigit

theorem spelling_eq_cons (n : IntegerLiteral) :
    ∃ c rest, n.spelling = c :: rest ∧ opensNumeral c = true := by
  rcases n.spelling_cases with hs | ⟨c, rest, hs, hc, -⟩
  · exact ⟨'-', _, hs, by decide⟩
  · exact ⟨c, rest, hs, by simp [opensNumeral, hc]⟩

theorem isIdentifierStart_of_opensNumeral {c : Char} (h : opensNumeral c = true) :
    isIdentifierStart c = false := by
  simp only [opensNumeral, Bool.or_eq_true, beq_iff_eq] at h
  rcases h with rfl | h
  · decide
  · have hunderscore : c ≠ '_' := by
      intro heq
      cases heq
      exact absurd h (by decide)
    have hletter : c.isAlpha = false := by
      simp only [Char.isDigit, isAlpha_eq, Bool.and_eq_true, decide_eq_true_eq,
        Bool.or_eq_false_iff, Bool.and_eq_false_iff, decide_eq_false_iff_not,
        UInt32.le_iff_toNat_le] at h ⊢
      simp at h ⊢
      omega
    simp [isIdentifierStart, hletter, hunderscore]

theorem numeral?_spelling (n : IntegerLiteral) : numeral? n.spelling = some n.number := by
  have hpoint : ∀ c ∈ Nat.toDigits 10 n.value.natAbs, (c != '.') = true := by
    intro c hc
    rw [bne_iff_ne]
    intro heq
    cases heq
    exact absurd (isDigit_of_mem_toDigits hc) (by decide)
  have hspan : (Nat.toDigits 10 n.value.natAbs).span (· != '.') =
      (Nat.toDigits 10 n.value.natAbs, []) := by
    simpa using Stops.nil.span_append hpoint
  have hinteger : integer? n.spelling = some n.value := integer?_spelling n.value
  have hnumber := n.number?_value
  have hdigits : (!(Nat.toDigits 10 n.value.natAbs).isEmpty &&
      (Nat.toDigits 10 n.value.natAbs).all Char.isDigit) = true := by
    simp [all_isDigit_toDigits, Nat.toDigits_ne_nil]
  rcases n.spelling_cases with hs | ⟨c, rest, hs, hc, hrest⟩
  · rw [hs] at hinteger ⊢
    simp only [numeral?, hspan, hdigits, hinteger, if_true, Option.bind_some, hnumber]
    rfl
  · have hminus : c ≠ '-' := by
      intro heq
      cases heq
      exact absurd hc (by decide)
    rw [hs, hrest] at hinteger
    rw [numeral?, hs, hrest, hspan]
    · simp only [hdigits, hinteger, if_true, Option.bind_some, hnumber]
      rfl
    · rw [hs]
      intro _ heq
      cases heq
      exact hminus rfl

theorem numeralText_spelling (n : IntegerLiteral) {rest : List Char}
    (hdigit : Stops Char.isDigit rest) (hpoint : rest.head? ≠ some '.') :
    numeralText (n.spelling ++ rest) = .done n.spelling rest := by
  have hspan : (Nat.toDigits 10 n.value.natAbs ++ rest).span Char.isDigit =
      (Nat.toDigits 10 n.value.natAbs, rest) :=
    hdigit.span_append fun _ h => isDigit_of_mem_toDigits h
  obtain ⟨d, digits, hdigits, hd⟩ := toDigits_eq_cons n.value.natAbs
  rw [hdigits] at hspan
  rcases n.spelling_cases with hs | ⟨c, others, hs, hc, hothers⟩
  · rw [hs, List.cons_append, hdigits]
    simp only [numeralText, hspan]
    split
    · exact absurd rfl hpoint
    · rfl
  · rw [hs, hothers, hdigits, numeralText]
    · simp only [hspan]
      split
      · exact absurd rfl hpoint
      · rfl
    · intro _ heq
      cases heq
      exact absurd hd (by decide)

end Template

end Stencil
