namespace Stencil

abbrev RecencyList (κ υ : Type) := List (κ × υ)

namespace RecencyList

variable {κ υ : Type} [BEq κ]

def peek? (l : RecencyList κ υ) (key : κ) : Option υ :=
  l.lookup key

def contains (l : RecencyList κ υ) (key : κ) : Bool :=
  (l.peek? key).isSome

def without (l : RecencyList κ υ) (key : κ) : RecencyList κ υ :=
  l.filter (·.1 != key)

/-- A binding that is found moves to the front. -/
def get? (l : RecencyList κ υ) (key : κ) : Option υ × RecencyList κ υ :=
  match l.peek? key with
  | some value => (some value, (key, value) :: l.without key)
  | none => (none, l)

/-- The binding moves to the front or comes there new, and then the last one of a full list goes.
Yields the value that was replaced. -/
def put (l : RecencyList κ υ) (capacity : Nat) (key : κ) (value : υ) :
    Option υ × RecencyList κ υ :=
  match l.peek? key with
  | some old => (some old, (key, value) :: l.without key)
  | none => (none, (key, value) :: if l.length = capacity then l.dropLast else l)

def remove (l : RecencyList κ υ) (key : κ) : Option υ × RecencyList κ υ :=
  match l.peek? key with
  | some value => (some value, l.without key)
  | none => (none, l)

variable {l : RecencyList κ υ} {key : κ}

theorem length_without_lt [LawfulBEq κ] {value : υ} (h : l.peek? key = some value) :
    (l.without key).length < l.length := by
  rw [without, List.length_filter_lt_length_iff_exists]
  have hsome : l.lookup key ≠ none := by
    rw [← peek?, h]
    exact nofun
  rw [Ne, List.lookup_eq_none_iff, Classical.not_forall] at hsome
  obtain ⟨entry, hentry⟩ := hsome
  rw [Classical.not_imp, bne_iff_ne, Ne, Classical.not_not] at hentry
  exact ⟨entry, hentry.1, by simp [hentry.2]⟩

theorem length_get?_le [LawfulBEq κ] (l : RecencyList κ υ) (key : κ) :
    (l.get? key).2.length ≤ l.length := by
  simp only [get?]
  split
  · rename_i hfound
    exact length_without_lt hfound
  · exact Nat.le_refl _

theorem length_remove_le (l : RecencyList κ υ) (key : κ) :
    (l.remove key).2.length ≤ l.length := by
  simp only [remove]
  split
  · exact List.length_filter_le ..
  · exact Nat.le_refl _

theorem length_put_le [LawfulBEq κ] {capacity : Nat} (hpos : 0 < capacity)
    (h : l.length ≤ capacity) (key : κ) (value : υ) :
    (l.put capacity key value).2.length ≤ capacity := by
  simp only [put]
  split
  · rename_i hfound
    exact Nat.le_trans (length_without_lt hfound) h
  · split
    · simp only [List.length_cons, List.length_dropLast]
      omega
    · simp only [List.length_cons]
      omega

end RecencyList

end Stencil
