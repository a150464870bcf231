import Stencil.Proofs.Comparison
import Stencil.Proofs.IntegerRounding
import Stencil.Proofs.Numerals

namespace Stencil

namespace Text

theorem trim_append {before core after : List Char} (hbefore : ∀ c ∈ before, isBlank c = true)
    (hafter : ∀ c ∈ after, isBlank c = true) (hne : core ≠ [])
    (hcore : ∀ c ∈ core, isBlank c = false) : trim (before ++ (core ++ after)) = core := by
  obtain ⟨c, others, hcons⟩ := List.exists_cons_of_ne_nil hne
  obtain ⟨d, front, hconcat⟩ := List.exists_cons_of_ne_nil (List.reverse_ne_nil_iff.mpr hne)
  have hfirst : isBlank c = false := hcore c (hcons ▸ List.mem_cons_self)
  have hlast : isBlank d = false :=
    hcore d (List.mem_reverse.mp (hconcat ▸ List.mem_cons_self))
  have hstart : trimStart (before ++ (core ++ after)) = core ++ after := by
    refine Template.Stops.dropWhile_append hbefore ?_
    rw [hcons]
    exact .cons hfirst _
  have hend : (after.reverse ++ core.reverse).dropWhile isBlank = core.reverse := by
    refine Template.Stops.dropWhile_append (fun e he => hafter e (List.mem_reverse.mp he)) ?_
    rw [hconcat]
    exact .cons hlast _
  rw [trim, hstart, trimEnd, List.reverse_append, hend, List.reverse_reverse]

theorem isBlank_of_isDigit {c : Char} (h : c.isDigit = true) : isBlank c = false := by
  have hrange : 0x30 ≤ c.toNat ∧ c.toNat ≤ 0x39 := by
    simp only [Char.isDigit, Bool.and_eq_true, decide_eq_true_eq, UInt32.le_iff_toNat_le] at h
    simpa using h
  simp [isBlank]
  omega

end Text

namespace Numeral

/-- What may stand around the digits of a decimal numeral: blanks at both ends, a plus sign unless
the integer is negative, and zeros in front. -/
structure Dress where
  before : List Char
  after : List Char
  plus : Bool
  zeros : Nat
  blank : ∀ c ∈ before ++ after, Text.isBlank c = true

namespace Dress

def none : Dress where
  before := []
  after := []
  plus := false
  zeros := 0
  blank := nofun

def sign (d : Dress) (v : Int) : List Char :=
  if v < 0 then ['-'] else if d.plus then ['+'] else []

def digits (d : Dress) (v : Int) : List Char :=
  List.replicate d.zeros '0' ++ Nat.toDigits 10 v.natAbs

def spelling (d : Dress) (v : Int) : String :=
  String.ofList (d.before ++ ((d.sign v ++ d.digits v) ++ d.after))

variable (d : Dress) (v : Int)

theorem isDigit_of_mem_digits {c : Char} (h : c ∈ d.digits v) : c.isDigit = true :=
  isDigit_of_mem_led h

theorem digits_ne_nil : d.digits v ≠ [] :=
  List.append_ne_nil_of_right_ne_nil _ Nat.toDigits_ne_nil

theorem isBlank_of_mem {c : Char} (h : c ∈ d.sign v ++ d.digits v) : Text.isBlank c = false := by
  rcases List.mem_append.mp h with h | h
  · rw [sign] at h
    split at h
    · rw [List.mem_singleton.mp h]
      rfl
    · split at h
      · rw [List.mem_singleton.mp h]
        rfl
      · cases h
  · exact Text.isBlank_of_isDigit (d.isDigit_of_mem_digits v h)

theorem trim_spelling : Text.trim (d.spelling v).toList = d.sign v ++ d.digits v := by
  obtain ⟨hbefore, hafter⟩ := List.forall_mem_append.mp d.blank
  rw [spelling, String.toList_ofList]
  exact Text.trim_append hbefore hafter (List.append_ne_nil_of_right_ne_nil _ (d.digits_ne_nil v))
    fun _ => d.isBlank_of_mem v

theorem splitSign_eq : splitSign (d.sign v ++ d.digits v) = (decide (v < 0), d.digits v) := by
  rw [sign]
  split
  · rename_i hneg
    simp [splitSign, hneg]
  · rename_i hneg
    split
    · simp [splitSign, hneg]
    · obtain ⟨c, rest, hdigits⟩ := List.exists_cons_of_ne_nil (d.digits_ne_nil v)
      have hc : c.isDigit = true := d.isDigit_of_mem_digits v (hdigits ▸ List.mem_cons_self)
      rw [List.nil_append, hdigits, splitSign_of_isDigit hc, decide_eq_false hneg]

theorem integer?_eq : integer? (d.sign v ++ d.digits v) = some v :=
  integer?_of_splitSign (d.splitSign_eq v) (natural?_led _ _)

theorem exists_number?_spelling (hleast : -2 ^ 63 ≤ v) (hgreatest : v < 2 ^ 64) :
    ∃ kind holds, number? (d.spelling v) = some (.integer kind v holds) := by
  have hnumber : ∃ kind holds, (IntegerKind.int64.number? v <|> IntegerKind.uint64.number? v) =
      some (.integer kind v holds) := by
    by_cases hsigned : IntegerKind.int64.Holds v
    · exact ⟨_, hsigned, by simp [IntegerKind.number?, hsigned]⟩
    · have hunsigned : IntegerKind.uint64.Holds v := by
        simp [IntegerKind.Holds, IntegerKind.least, IntegerKind.greatest, IntegerKind.int64,
          IntegerKind.uint64, Width.bits] at hsigned ⊢
        omega
      exact ⟨_, hunsigned, by simp [IntegerKind.number?, hsigned, hunsigned]⟩
  obtain ⟨kind, holds, hnumber⟩ := hnumber
  refine ⟨kind, holds, ?_⟩
  simp only [number?, d.trim_spelling v, d.integer?_eq v, Option.bind_some, hnumber]
  rfl

end Dress

theorem none_spelling (v : Int) : Dress.none.spelling v = v.repr := by
  cases v with
  | ofNat n => simp [Dress.spelling, Dress.none, Dress.sign, Dress.digits, Int.repr, Nat.repr]
  | negSucc n =>
      refine String.toList_injective ?_
      simp [Dress.spelling, Dress.none, Dress.sign, Dress.digits, Int.repr, Nat.repr,
        Int.negSucc_lt_zero]

end Numeral

namespace Value

theorem compareText_spelling {v : Int} (d : Numeral.Dress) (hleast : -2 ^ 63 ≤ v)
    (hgreatest : v < 2 ^ 64) {kind : IntegerKind} {n : Int} (holds : kind.Holds n) :
    compareText (d.spelling v) (.number (.integer kind n holds)) = some (Ord.compare v n) := by
  obtain ⟨_, _, hnumber⟩ := d.exists_number?_spelling v hleast hgreatest
  simp only [compareText, compareTextNumber, hnumber, Option.bind_some, Number.compare,
    Option.getD_some]

theorem compareText_canonical {v : Value} (hnull : v.isNull = false) (hsingle : v.tag ≠ .single)
    (hdouble : v.tag ≠ .double) : compareText v.canonical v = some .eq := by
  cases v with
  | null => cases hnull
  | number n =>
      cases n with
      | integer kind n holds =>
          obtain ⟨hleast, hgreatest⟩ := holds.bounds
          have hself := compareText_spelling Numeral.Dress.none hleast hgreatest holds
          rw [Numeral.none_spelling] at hself
          exact hself.trans (congrArg some Std.ReflCmp.compare_self)
      | single x => exact absurd rfl hsingle
      | double x => exact absurd rfl hdouble
  | _ => exact congrArg some Std.ReflCmp.compare_self

/-- A value that is neither null nor a floating-point number equals its own text, and a text
that spells an integer of 64 bits compares with every integer as that integer does. -/
theorem text_compares_as_value :
    (∀ v : Value, v.isNull = false → v.tag ≠ .single → v.tag ≠ .double →
      compare v (.text v.canonical) = some .eq ∧ compare (.text v.canonical) v = some .eq) ∧
    ∀ (v : Int) (d : Numeral.Dress), -2 ^ 63 ≤ v → v < 2 ^ 64 →
      ∀ (kind : IntegerKind) (n : Int) (holds : kind.Holds n),
        compare (.text (d.spelling v)) (.number (.integer kind n holds)) =
            some (Ord.compare v n) ∧
          compare (.number (.integer kind n holds)) (.text (d.spelling v)) =
            some (Ord.compare n v) := by
  constructor
  · intro v hnull hsingle hdouble
    rw [compare_text_right, compare_text, compareText_canonical hnull hsingle hdouble]
    exact ⟨rfl, rfl⟩
  · intro v d hleast hgreatest kind n holds
    rw [compare_text_right, compare_text, compareText_spelling d hleast hgreatest holds]
    exact ⟨rfl, congrArg some Std.OrientedCmp.eq_swap.symm⟩

def widestDress : Numeral.Dress where
  before := ['\u00a0', '\t']
  after := [' ', '\n']
  plus := true
  zeros := 2
  blank := List.all_eq_true.mp rfl

theorem text_compares_as_value_widest :
    widestDress.spelling 18446744073709551615 = "\u00a0\t+0018446744073709551615 \n" ∧
      compare (.text (widestDress.spelling 18446744073709551615))
        (.number (.integer .int64 (-1) (by decide))) = some .gt ∧
      compare (.text "[]") (.list []) = some .eq := by
  have hspelled := (text_compares_as_value.2 18446744073709551615 widestDress (by decide)
    (by decide) .int64 (-1) (by decide)).1
  have hlist := (text_compares_as_value.1 (.list []) rfl nofun nofun).2
  exact ⟨by decide +kernel, hspelled, hlist⟩

end Value

end Stencil
