import Stencil.Text.Case

namespace Stencil.Text

namespace CaseRun

/-- The characters between the images under `r` and the characters of `s`; none if they meet. -/
def gap (r s : CaseRun) : Nat :=
  s.first - (r.target + (r.last - r.first)) + (r.target - s.last)

def interleaves (r s : CaseRun) : Bool :=
  s.step == 2 && (r.step == 2 || r.first == r.last) && (r.target + s.first) % 2 == 1

def avoids (r s : CaseRun) : Bool :=
  match r.gap s with
  | 0 => r.interleaves s
  | _ + 1 => true

/-- All images under `r` are code points, and none of them is `n`. -/
def misses (r : CaseRun) (n : Nat) : Bool :=
  (r.target + (r.last - r.first) < 0xD800 ||
    (0xDFFF < r.target && r.target + (r.last - r.first) < 0x110000)) &&
  (r.target + (r.last - r.first) < n || n < r.target)

theorem image?_eq_some {r : CaseRun} {n m : Nat} (h : r.image? n = some m) :
    r.first ≤ n ∧ n ≤ r.last ∧ (n - r.first) % r.step = 0 ∧ m = r.target + (n - r.first) := by
  simp only [image?, Option.ite_none_right_eq_some, Bool.and_eq_true, decide_eq_true_eq,
    beq_iff_eq, Option.some.injEq] at h
  obtain ⟨⟨⟨hfirst, hlast⟩, hstep⟩, rfl⟩ := h
  exact ⟨hfirst, hlast, hstep, rfl⟩

theorem image?_of_avoids {r s : CaseRun} {n m : Nat} (havoids : r.avoids s = true)
    (himage : r.image? n = some m) : s.image? m = none := by
  obtain ⟨hfirst, hlast, hstep, rfl⟩ := image?_eq_some himage
  cases hagain : s.image? (r.target + (n - r.first)) with
  | none => rfl
  | some k =>
      obtain ⟨hfirst', hlast', hstep', -⟩ := image?_eq_some hagain
      have hgap : r.gap s = 0 := by
        simp only [gap]
        omega
      simp only [avoids, hgap, interleaves, Bool.and_eq_true, Bool.or_eq_true, beq_iff_eq]
        at havoids
      obtain ⟨⟨hs, hr⟩, hparity⟩ := havoids
      rw [hs] at hstep'
      rcases hr with hr | hr
      · rw [hr] at hstep
        omega
      · omega

theorem toNat_image {r : CaseRun} {n m k : Nat} (hmisses : r.misses k = true)
    (himage : r.image? n = some m) : (Char.ofNat m).toNat = m ∧ m ≠ k := by
  obtain ⟨hfirst, hlast, -, rfl⟩ := image?_eq_some himage
  simp only [misses, Bool.or_eq_true, Bool.and_eq_true, decide_eq_true_eq] at hmisses
  have hvalid : (r.target + (n - r.first)).isValidChar := by
    simp only [Nat.isValidChar]
    omega
  refine ⟨?_, by omega⟩
  rw [Char.ofNat, dif_pos hvalid]
  rfl

end CaseRun

theorem lowerRuns_avoid : (lowerRuns.all fun r => lowerRuns.all r.avoids) = true := by
  decide +kernel

def dottedCapital : Nat := 0x130

theorem lowerRuns_miss : (lowerRuns.all fun r => r.misses dottedCapital) = true := by
  decide +kernel

/-- Characters that `lower` leaves alone wherever they stand. -/
def IsSmall (c : Char) : Prop :=
  c ≠ 'Σ' ∧ lowerChar c = [c]

instance (c : Char) : Decidable (IsSmall c) :=
  inferInstanceAs (Decidable (_ ∧ _))

theorem isSmall_toLower {c : Char} (h : c.toNat < 0x80) : IsSmall c.toLower := by
  have hall : ∀ n < 0x80, IsSmall (Char.ofNat n).toLower := by decide +kernel
  simpa using hall c.toNat h

theorem toLower_eq_self {c : Char} (h : c.toNat < 0x80)
    (hruns : lowerRuns.findSome? (·.image? c.toNat) = none) : c.toLower = c := by
  have hall : ∀ n < 0x80, (Char.ofNat n).toLower = Char.ofNat n ∨
      (lowerRuns.findSome? (·.image? n)).isSome = true := by decide +kernel
  have hself := hall c.toNat h
  simpa [hruns] using hself

theorem isSmall_of_image?_eq_none {c : Char} (hruns : ∀ s ∈ lowerRuns, s.image? c.toNat = none)
    (hdotted : c.toNat ≠ dottedCapital) : IsSmall c := by
  have hfind : lowerRuns.findSome? (·.image? c.toNat) = none :=
    List.findSome?_eq_none_iff.mpr hruns
  have hsigma : c ≠ 'Σ' := by
    intro heq
    cases heq
    revert hfind
    decide +kernel
  refine ⟨hsigma, ?_⟩
  by_cases hascii : c.toNat < 0x80
  · simp only [lowerChar, hascii, if_true, toLower_eq_self hascii hfind]
  · have hexpand : lowerExpansions.find? (·.1 == c.toNat) = none := by
      have hne : (0x130 == c.toNat) = false := beq_eq_false_iff_ne.mpr (Ne.symm hdotted)
      simp only [lowerExpansions, List.find?_cons, hne, List.find?_nil]
    simp only [lowerChar, hascii, if_false, imageOf, hexpand, hfind]

theorem isSmall_image {r : CaseRun} (hr : r ∈ lowerRuns) {n m : Nat}
    (himage : r.image? n = some m) : IsSmall (Char.ofNat m) := by
  obtain ⟨htoNat, hdotted⟩ :=
    CaseRun.toNat_image (List.all_eq_true.mp lowerRuns_miss r hr) himage
  refine isSmall_of_image?_eq_none ?_ (htoNat.symm ▸ hdotted)
  intro s hs
  rw [htoNat]
  exact CaseRun.image?_of_avoids
    (List.all_eq_true.mp (List.all_eq_true.mp lowerRuns_avoid r hr) s hs) himage

theorem isSmall_of_mem_lowerChar {c d : Char} (h : d ∈ lowerChar c) : IsSmall d := by
  by_cases hascii : c.toNat < 0x80
  · simp only [lowerChar, hascii, if_true, List.mem_singleton] at h
    exact h ▸ isSmall_toLower hascii
  · simp only [lowerChar, hascii, if_false, imageOf, lowerExpansions, List.find?_cons,
      List.find?_nil] at h
    by_cases hdotted : c.toNat = 0x130
    · have hletter : IsSmall (Char.ofNat 0x69) := by decide +kernel
      have hdot : IsSmall (Char.ofNat 0x307) := by decide +kernel
      rw [hdotted] at h
      have hmem : d ∈ [Char.ofNat 0x69, Char.ofNat 0x307] := h
      simp only [List.mem_cons, List.not_mem_nil, or_false] at hmem
      rcases hmem with rfl | rfl
      · exact hletter
      · exact hdot
    · have hne : (0x130 == c.toNat) = false := beq_eq_false_iff_ne.mpr (Ne.symm hdotted)
      simp only [hne] at h
      cases hfind : lowerRuns.findSome? (·.image? c.toNat) with
      | none =>
          simp only [hfind, List.mem_singleton] at h
          exact h ▸ isSmall_of_image?_eq_none (List.findSome?_eq_none_iff.mp hfind) hdotted
      | some m =>
          simp only [hfind, List.mem_singleton] at h
          obtain ⟨r, hr, himage⟩ := List.exists_of_findSome?_eq_some hfind
          exact h ▸ isSmall_image hr himage

theorem isSmall_of_mem_lowerAfter {before text : List Char} {d : Char}
    (h : d ∈ lowerAfter before text) : IsSmall d := by
  induction text generalizing before with
  | nil => exact nomatch h
  | cons c rest ih =>
      simp only [lowerAfter, List.mem_append] at h
      rcases h with h | h
      · split at h
        · have hfinal : IsSmall 'ς' ∧ IsSmall 'σ' := by decide +kernel
          split at h
          · exact List.mem_singleton.mp h ▸ hfinal.1
          · exact List.mem_singleton.mp h ▸ hfinal.2
        · exact isSmall_of_mem_lowerChar h
      · exact ih h

theorem lowerAfter_of_isSmall {before text : List Char} (h : ∀ c ∈ text, IsSmall c) :
    lowerAfter before text = text := by
  induction text generalizing before with
  | nil => rfl
  | cons c rest ih =>
      obtain ⟨⟨hsigma, hlower⟩, hrest⟩ := List.forall_mem_cons.mp h
      simp only [lowerAfter, beq_eq_false_iff_ne.mpr hsigma, Bool.false_eq_true, if_false, hlower,
        ih hrest, List.singleton_append]

theorem lower_lower (text : String) : lower (lower text) = lower text := by
  simp only [lower, String.toList_ofList]
  rw [lowerAfter_of_isSmall]
  intro c hc
  exact isSmall_of_mem_lowerAfter hc

end Stencil.Text
