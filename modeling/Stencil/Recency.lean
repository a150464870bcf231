import Stencil.Recency.Thread

namespace Stencil

structure RecencyMap (κ υ : Type) [BEq κ] [Hashable κ] where
  capacity : Nat
  capacity_pos : 0 < capacity
  slab : Slab κ υ
  holds : ∃ l, slab.Holds l ∧ l.length ≤ capacity

namespace RecencyMap

variable {κ υ : Type} [BEq κ] [Hashable κ]

def size (m : RecencyMap κ υ) : Nat :=
  m.slab.size

def isEmpty (m : RecencyMap κ υ) : Bool :=
  m.slab.isEmpty

def contains (m : RecencyMap κ υ) (key : κ) : Bool :=
  m.slab.contains key

def peek? (m : RecencyMap κ υ) (key : κ) : Option υ :=
  m.slab.peek? key

def walk (m : RecencyMap κ υ) : Slab.Walk κ υ :=
  m.slab.walk

def toList (m : RecencyMap κ υ) : List (κ × υ) :=
  m.slab.toList

def keys (m : RecencyMap κ υ) : List κ :=
  m.toList.map (·.1)

def values (m : RecencyMap κ υ) : List υ :=
  m.toList.map (·.2)

def text (keyText : κ → String) (valueText : υ → String) (m : RecencyMap κ υ) : String :=
  let entries := m.toList.map fun (key, value) => keyText key ++ ": " ++ valueText value
  "\x7b" ++ ", ".intercalate entries ++ "\x7d"

variable [LawfulBEq κ]

def empty (capacity : Nat) (capacity_pos : 0 < capacity) : RecencyMap κ υ :=
  { capacity, capacity_pos, slab := .empty, holds := ⟨[], Slab.holds_empty, Nat.zero_le _⟩ }

def get? (m : RecencyMap κ υ) (key : κ) : Option υ × RecencyMap κ υ :=
  let found := m.slab.get? key
  (found.1, { m with
    slab := found.2
    holds := by
      obtain ⟨l, hl, hfits⟩ := m.holds
      exact ⟨_, (hl.get? key).2, Nat.le_trans (l.length_get?_le key) hfits⟩ })

/-- Binds `key` and touches it, making room for a new key in a full map. Yields the value that
was replaced. -/
def put (m : RecencyMap κ υ) (key : κ) (value : υ) : Option υ × RecencyMap κ υ :=
  let bound := m.slab.put m.capacity key value
  (bound.1, { m with
    slab := bound.2
    holds := by
      obtain ⟨l, hl, hfits⟩ := m.holds
      exact ⟨_, (hl.put key value).2, RecencyList.length_put_le m.capacity_pos hfits key value⟩ })

def remove (m : RecencyMap κ υ) (key : κ) : Option υ × RecencyMap κ υ :=
  let removed := m.slab.remove key
  (removed.1, { m with
    slab := removed.2
    holds := by
      obtain ⟨l, hl, hfits⟩ := m.holds
      exact ⟨_, (hl.remove key).2, Nat.le_trans (l.length_remove_le key) hfits⟩ })

def clear (m : RecencyMap κ υ) : RecencyMap κ υ :=
  empty m.capacity m.capacity_pos

end RecencyMap

end Stencil
