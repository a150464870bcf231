import Mathlib.Data.List.Basic
import Stencil.Recency

namespace Stencil

namespace RecencyList

section Lookup

variable {κ υ : Type} [BEq κ] {l : RecencyList κ υ} {other : κ}

theorem peek?_cons (key other : κ) (value : υ) (l : RecencyList κ υ) :
    peek? ((key, value) :: l) other = if other == key then some value else l.peek? other := by
  simp only [peek?, List.lookup_cons]
  cases other == key <;> rfl

theorem peek?_of_peek?_dropLast {found : υ} (h : peek? l.dropLast other = some found) :
    l.peek? other = some found := by
  rcases List.eq_nil_or_concat l with rfl | ⟨front, entry, rfl⟩
  · exact h
  · rw [List.concat_eq_append] at h ⊢
    rw [List.dropLast_concat, peek?] at h
    rw [peek?, List.lookup_append, h]
    rfl

end Lookup

variable {κ υ : Type} [BEq κ] [LawfulBEq κ] {l : RecencyList κ υ} {key other : κ}

theorem peek?_without (l : RecencyList κ υ) (key other : κ) :
    (l.without key).peek? other = if other == key then none else l.peek? other := by
  induction l with
  | nil => simp [without, peek?]
  | cons entry rest ih =>
      obtain ⟨k, v⟩ := entry
      rw [without] at ih
      rw [without, List.filter_cons, peek?_cons]
      by_cases hk : k = key
      · subst hk
        rw [if_neg (by simp), ih]
        cases other == k <;> rfl
      · rw [if_pos (by simpa using hk), peek?_cons, ih]
        by_cases hother : other = k
        · subst hother
          simp [hk]
        · simp [hother]

theorem peek?_get? (l : RecencyList κ υ) (key other : κ) :
    (l.get? key).2.peek? other = l.peek? other := by
  simp only [get?]
  split
  · rename_i hfound
    rw [peek?_cons, peek?_without]
    by_cases hother : other = key
    · simp [hother, hfound]
    · simp [hother]
  · rfl

theorem peek?_of_peek?_put {capacity : Nat} {value found : υ}
    (h : (l.put capacity key value).2.peek? other = some found) :
    other = key ∧ found = value ∨ l.peek? other = some found := by
  simp only [put] at h
  split at h
  · rw [peek?_cons, peek?_without] at h
    split at h
    · rename_i hother
      exact .inl ⟨eq_of_beq hother, (Option.some.inj h).symm⟩
    · exact .inr h
  · rw [peek?_cons] at h
    split at h
    · rename_i hother
      exact .inl ⟨eq_of_beq hother, (Option.some.inj h).symm⟩
    · split at h
      · exact .inr (peek?_of_peek?_dropLast h)
      · exact .inr h

theorem peek?_put_self (l : RecencyList κ υ) (capacity : Nat) (key : κ) (value : υ) :
    (l.put capacity key value).2.peek? key = some value := by
  simp only [put]
  split <;> rw [peek?_cons, if_pos (beq_self_eq_true key)]

end RecencyList

namespace RecencyMap

variable {κ υ : Type} [BEq κ] [Hashable κ] [LawfulBEq κ]

theorem get?_fst (m : RecencyMap κ υ) (key : κ) : (m.get? key).1 = m.peek? key := by
  obtain ⟨l, hl, -⟩ := m.holds
  rw [peek?, hl.peek?_eq, get?, (hl.get? key).1, RecencyList.get?]
  split
  · rename_i hfound
    exact hfound.symm
  · rename_i hnone
    exact hnone.symm

@[simp] theorem peek?_get? (m : RecencyMap κ υ) (key other : κ) :
    (m.get? key).2.peek? other = m.peek? other := by
  obtain ⟨l, hl, -⟩ := m.holds
  rw [peek?, get?, (hl.get? key).2.peek?_eq, peek?, hl.peek?_eq, RecencyList.peek?_get?]

@[simp] theorem peek?_empty (capacity : Nat) (hpos : 0 < capacity) (key : κ) :
    (empty capacity hpos : RecencyMap κ υ).peek? key = none :=
  Slab.holds_empty.peek?_eq key

theorem get?_of_isEmpty {m : RecencyMap κ υ} (h : m.isEmpty = true) (key : κ) :
    m.get? key = (none, m) := by
  have hnone : m.slab.index[key]? = none := Std.HashMap.getElem?_of_isEmpty h
  simp only [get?, Slab.get?, hnone]

@[simp] theorem peek?_put_self (m : RecencyMap κ υ) (key : κ) (value : υ) :
    (m.put key value).2.peek? key = some value := by
  obtain ⟨l, hl, -⟩ := m.holds
  rw [peek?, put, (hl.put key value).2.peek?_eq, RecencyList.peek?_put_self]

theorem peek?_of_peek?_put {m : RecencyMap κ υ} {key other : κ} {value found : υ}
    (h : (m.put key value).2.peek? other = some found) :
    other = key ∧ found = value ∨ m.peek? other = some found := by
  obtain ⟨l, hl, -⟩ := m.holds
  rw [peek?, put, (hl.put key value).2.peek?_eq] at h
  rw [peek?, hl.peek?_eq]
  exact RecencyList.peek?_of_peek?_put h

end RecencyMap

end Stencil
