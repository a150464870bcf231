import Std.Data.HashMap

/-! Entries in numbered slots, threaded in both directions by the numbers of their neighbours. An
index leads from a key to its slot, and a slot that was given up is used again. -/

namespace Stencil

structure Slab.Entry (κ υ : Type) where
  key : κ
  value : υ
  prev : Option Nat
  next : Option Nat

structure Slab (κ υ : Type) [BEq κ] [Hashable κ] where
  index : Std.HashMap κ Nat
  slots : Array (Option (Slab.Entry κ υ))
  /-- The slots without an entry, the one to be used next in front. -/
  free : List Nat
  head : Option Nat
  tail : Option Nat

namespace Slab

variable {κ υ : Type} [BEq κ] [Hashable κ]

def empty : Slab κ υ :=
  { index := ∅, slots := #[], free := [], head := none, tail := none }

def size (s : Slab κ υ) : Nat :=
  s.index.size

def isEmpty (s : Slab κ υ) : Bool :=
  s.index.isEmpty

def entryAt? (s : Slab κ υ) (i : Nat) : Option (Entry κ υ) :=
  (s.slots[i]?).join

def modifyEntry (s : Slab κ υ) (i : Nat) (f : Entry κ υ → Entry κ υ) : Slab κ υ :=
  { s with slots := s.slots.modify i (Option.map f) }

def linkNext (s : Slab κ υ) (i next : Option Nat) : Slab κ υ :=
  match i with
  | some i => s.modifyEntry i fun e => { e with next }
  | none => { s with head := next }

def linkPrev (s : Slab κ υ) (i prev : Option Nat) : Slab κ υ :=
  match i with
  | some i => s.modifyEntry i fun e => { e with prev }
  | none => { s with tail := prev }

def detach (s : Slab κ υ) (i : Nat) : Slab κ υ :=
  match s.entryAt? i with
  | some e =>
      let s := s.modifyEntry i fun e => { e with prev := none, next := none }
      (s.linkNext e.prev e.next).linkPrev e.next e.prev
  | none => s

def attachFront (s : Slab κ υ) (i : Nat) : Slab κ υ :=
  let head := s.head
  let s := s.modifyEntry i fun e => { e with prev := none, next := head }
  (s.linkPrev head (some i)).linkNext none (some i)

def promote (s : Slab κ υ) (i : Nat) : Slab κ υ :=
  if s.head = some i then s else (s.detach i).attachFront i

def release (s : Slab κ υ) (i : Nat) : Option (κ × υ) × Slab κ υ :=
  let s := s.detach i
  match s.entryAt? i with
  | some e =>
      (some (e.key, e.value), { s with
        slots := s.slots.setIfInBounds i none
        index := s.index.erase e.key
        free := i :: s.free })
  | none => (none, s)

def place (s : Slab κ υ) (key : κ) (value : υ) : Nat × Slab κ υ :=
  let entry : Entry κ υ := { key, value, prev := none, next := none }
  match s.free with
  | i :: free => (i, { s with slots := s.slots.setIfInBounds i (some entry), free })
  | [] => (s.slots.size, { s with slots := s.slots.push (some entry) })

def evictLast (s : Slab κ υ) : Slab κ υ :=
  match s.tail with
  | some i => (s.release i).2
  | none => s

def contains (s : Slab κ υ) (key : κ) : Bool :=
  s.index.contains key

def peek? (s : Slab κ υ) (key : κ) : Option υ := do
  let i ← s.index[key]?
  let e ← s.entryAt? i
  return e.value

def get? (s : Slab κ υ) (key : κ) : Option υ × Slab κ υ :=
  match s.index[key]? with
  | some i =>
      let s := s.promote i
      ((s.entryAt? i).map (·.value), s)
  | none => (none, s)

def replace (s : Slab κ υ) (i : Nat) (value : υ) : Option υ × Slab κ υ :=
  let s := s.promote i
  ((s.entryAt? i).map (·.value), s.modifyEntry i fun e => { e with value })

def insert (s : Slab κ υ) (key : κ) (value : υ) : Slab κ υ :=
  let (i, s) := s.place key value
  let s := s.attachFront i
  { s with index := s.index.insert key i }

/-- Binds a key in a slab for at most `capacity` entries. -/
def put (s : Slab κ υ) (capacity : Nat) (key : κ) (value : υ) : Option υ × Slab κ υ :=
  match s.index[key]? with
  | some i => s.replace i value
  | none => (none, (if s.size = capacity then s.evictLast else s).insert key value)

def remove (s : Slab κ υ) (key : κ) : Option υ × Slab κ υ :=
  match s.index[key]? with
  | some i =>
      let (released, s) := s.release i
      (released.map (·.2), s)
  | none => (none, s)

structure Walk (κ υ : Type) where
  slots : Array (Option (Entry κ υ))
  cursor : Option Nat
  remaining : Nat

def walk (s : Slab κ υ) : Walk κ υ :=
  { slots := s.slots, cursor := s.head, remaining := s.size }

def Walk.next? (w : Walk κ υ) : Option ((κ × υ) × Walk κ υ) := do
  let i ← w.cursor
  let e ← (w.slots[i]?).join
  return ((e.key, e.value), { w with cursor := e.next, remaining := w.remaining - 1 })

/-- At least and at most how many entries are still to come. -/
def Walk.sizeHint (w : Walk κ υ) : Nat × Option Nat :=
  (w.remaining, some w.remaining)

def Walk.take : Nat → Walk κ υ → List (κ × υ)
  | 0, _ => []
  | n + 1, w =>
      match w.next? with
      | some (entry, w) => entry :: w.take n
      | none => []

/-- The entries along the thread, of which there are no more than slots. -/
def toList (s : Slab κ υ) : List (κ × υ) :=
  s.walk.take s.slots.size

end Slab

end Stencil
