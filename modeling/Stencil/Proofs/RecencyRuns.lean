import Mathlib.Data.List.Perm.Subperm
import Stencil.Proofs.Recency

namespace Stencil

namespace Slab

section Walks

variable {κ υ : Type}

/-- The walk goes through exactly these bindings, and announces their number at every place. -/
def Walk.Yields (w : Walk κ υ) : RecencyList κ υ → Prop
  | [] => w.sizeHint = (0, some 0) ∧ w.next? = none
  | entry :: rest =>
      w.sizeHint = (rest.length + 1, some (rest.length + 1)) ∧
        ∃ w', w.next? = some (entry, w') ∧ w'.Yields rest

theorem Walk.Yields.take {w : Walk κ υ} {l : RecencyList κ υ} (h : w.Yields l) {n : Nat}
    (hn : l.length ≤ n) : w.take n = l := by
  induction l generalizing w n with
  | nil =>
      cases n with
      | zero => rfl
      | succ n => simp only [Walk.take, h.2]
  | cons entry rest ih =>
      obtain ⟨-, w', hnext, hrest⟩ := h
      cases n with
      | zero => exact absurd hn (by simp)
      | succ n => simp only [Walk.take, hnext, ih hrest (Nat.le_of_succ_le_succ hn)]

end Walks

variable {κ υ : Type} [BEq κ] [Hashable κ] {s : Slab κ υ}

theorem Segment.yields {prev : Option Nat} {cells : List (Cell κ υ)}
    (h : s.Segment prev cells none) :
    Walk.Yields ⟨s.slots, frontSlot cells, cells.length⟩ (bindings cells) := by
  induction cells generalizing prev with
  | nil => exact ⟨rfl, rfl⟩
  | cons c rest ih =>
      obtain ⟨hentry, hrest⟩ := h
      have hlength : (bindings rest).length = rest.length := List.length_map _
      refine ⟨?_, _, ?_, ih hrest⟩
      · rw [← bindings, hlength]
        rfl
      · rw [entryAt?] at hentry
        simp [Walk.next?, hentry]

namespace Threads

variable {cells : List (Cell κ υ)}

theorem length_le (h : s.Threads cells) : cells.length ≤ s.slots.size := by
  have hsub : cells.map Cell.slot ⊆ List.range s.slots.size := by
    intro i hi
    exact List.mem_range.mpr (lt_size_of_filled? (h.linked.filled?_of_mem hi))
  have hle := (List.Nodup.subperm h.linked.nodup hsub).length_le
  rwa [List.length_map, List.length_range] at hle

theorem yields [LawfulBEq κ] (h : s.Threads cells) : s.walk.Yields (bindings cells) := by
  rw [walk, h.linked.head, h.size_eq]
  exact h.linked.segment.yields

theorem toList_eq [LawfulBEq κ] (h : s.Threads cells) : s.toList = bindings cells := by
  refine h.yields.take ?_
  rw [bindings, List.length_map]
  exact h.length_le

end Threads

theorem Holds.yields [LawfulBEq κ] {l : RecencyList κ υ} (h : s.Holds l) : s.walk.Yields l := by
  obtain ⟨cells, hcells, rfl⟩ := h
  exact hcells.yields

theorem Holds.toList_eq [LawfulBEq κ] {l : RecencyList κ υ} (h : s.Holds l) : s.toList = l := by
  obtain ⟨cells, hcells, rfl⟩ := h
  exact hcells.toList_eq

theorem Holds.isEmpty_eq [LawfulBEq κ] {l : RecencyList κ υ} (h : s.Holds l) :
    s.isEmpty = l.isEmpty := by
  have hsize := h.size_eq
  rw [size] at hsize
  rw [isEmpty, Std.HashMap.isEmpty_eq_size_eq_zero, hsize]
  cases l <;> rfl

def nextOf? (s : Slab κ υ) (i : Nat) : Option Nat := do
  (← s.entryAt? i).next

def prevOf? (s : Slab κ υ) (i : Nat) : Option Nat := do
  (← s.entryAt? i).prev

theorem Threads.nextOf?_eq_some_iff {cells : List (Cell κ υ)} (h : s.Threads cells) {i j : Nat} :
    s.nextOf? i = some j ↔ s.prevOf? j = some i := by
  have hcell {i : Nat} {e : Entry κ υ} (hentry : s.entryAt? i = some e) :
      ∃ before c after, cells = before ++ c :: after ∧ c.slot = i := by
    obtain ⟨c, hc, hslot⟩ :=
      List.mem_map.mp (h.occupied i (filled?_eq_true.mpr ⟨e, hentry⟩))
    obtain ⟨before, after, hcells⟩ := List.append_of_mem hc
    exact ⟨before, c, after, hcells, hslot⟩
  constructor
  · intro hnext
    obtain ⟨e, hentry, hlink⟩ := Option.bind_eq_some_iff.mp hnext
    obtain ⟨before, c, after, hcells, rfl⟩ := hcell hentry
    have hsegment := h.linked.segment
    rw [hcells] at hsegment
    obtain rfl := Option.some.inj (hsegment.entryAt?_eq.symm.trans hentry)
    cases after with
    | nil => cases hlink
    | cons d rest =>
        obtain rfl : d.slot = j := Option.some.inj hlink
        have hbehind : s.Segment none ((before ++ [c]) ++ d :: rest) none := by
          simpa using hsegment
        simp [prevOf?, hbehind.entryAt?_eq, backSlot]
  · intro hprev
    obtain ⟨e, hentry, hlink⟩ := Option.bind_eq_some_iff.mp hprev
    obtain ⟨before, d, after, hcells, rfl⟩ := hcell hentry
    have hsegment := h.linked.segment
    rw [hcells] at hsegment
    obtain rfl := Option.some.inj (hsegment.entryAt?_eq.symm.trans hentry)
    rcases List.eq_nil_or_concat before with rfl | ⟨front, c, rfl⟩
    · cases hlink
    · rw [List.concat_eq_append] at hlink hsegment
      obtain rfl : c.slot = i := by simpa [backSlot] using hlink
      have hahead : s.Segment none (front ++ c :: d :: after) none := by
        simpa using hsegment
      simp [nextOf?, hahead.entryAt?_eq]

end Slab

inductive RecencyMap.Operation (κ υ : Type) where
  | put (key : κ) (value : υ)
  | get (key : κ)
  | peek (key : κ)
  | contains (key : κ)
  | remove (key : κ)
  | clear

inductive RecencyMap.Answer (υ : Type) where
  | value (found : Option υ)
  | truth (b : Bool)
  | nothing

/-- What can be seen of a map without an operation on it. -/
structure RecencyMap.View (κ υ : Type) where
  size : Nat
  isEmpty : Bool
  keys : List κ
  values : List υ
  sizeHint : Nat × Option Nat
  deriving DecidableEq

namespace RecencyList

variable {κ υ : Type} [BEq κ]

open RecencyMap

def apply (l : RecencyList κ υ) (capacity : Nat) : Operation κ υ → Answer υ × RecencyList κ υ
  | .put key value => (l.put capacity key value).map .value id
  | .get key => (l.get? key).map .value id
  | .peek key => (.value (l.peek? key), l)
  | .contains key => (.truth (l.contains key), l)
  | .remove key => (l.remove key).map .value id
  | .clear => (.nothing, [])

def run (l : RecencyList κ υ) (capacity : Nat) (ops : List (Operation κ υ)) :
    RecencyList κ υ :=
  ops.foldl (fun l op => (l.apply capacity op).2) l

def view (l : RecencyList κ υ) : View κ υ :=
  { size := l.length
    isEmpty := l.isEmpty
    keys := l.map (·.1)
    values := l.map (·.2)
    sizeHint := (l.length, some l.length) }

end RecencyList

namespace RecencyMap

variable {κ υ : Type} [BEq κ] [Hashable κ] [LawfulBEq κ]

def apply (m : RecencyMap κ υ) : Operation κ υ → Answer υ × RecencyMap κ υ
  | .put key value => (m.put key value).map .value id
  | .get key => (m.get? key).map .value id
  | .peek key => (.value (m.peek? key), m)
  | .contains key => (.truth (m.contains key), m)
  | .remove key => (m.remove key).map .value id
  | .clear => (.nothing, m.clear)

def run (m : RecencyMap κ υ) (ops : List (Operation κ υ)) : RecencyMap κ υ :=
  ops.foldl (fun m op => (m.apply op).2) m

def view (m : RecencyMap κ υ) : View κ υ :=
  { size := m.size
    isEmpty := m.isEmpty
    keys := m.keys
    values := m.values
    sizeHint := m.walk.sizeHint }

/-- The key that an operation touches: a binding touches its key, and so does finding it. -/
def touched? (m : RecencyMap κ υ) : Operation κ υ → Option κ
  | .put key _ => some key
  | .get key => if m.contains key then some key else none
  | .peek _ | .contains _ | .remove _ | .clear => none

def touches (m : RecencyMap κ υ) : List (Operation κ υ) → List κ
  | [] => []
  | op :: rest => (m.apply op).2.touches rest ++ (m.touched? op).toList

variable {m : RecencyMap κ υ} {l : RecencyList κ υ}

theorem view_eq (h : m.slab.Holds l) : m.view = l.view := by
  have hsize : m.size = l.length := h.size_eq
  have hempty : m.isEmpty = l.isEmpty := h.isEmpty_eq
  have hlist : m.toList = l := h.toList_eq
  have hhint : m.walk.sizeHint = (l.length, some l.length) := by
    rw [walk, Slab.Walk.sizeHint, Slab.walk, h.size_eq]
  rw [view, hsize, hempty, hhint, keys, values, hlist]
  rfl

theorem apply_holds (h : m.slab.Holds l) (op : Operation κ υ) :
    (m.apply op).1 = (l.apply m.capacity op).1 ∧
      (m.apply op).2.slab.Holds (l.apply m.capacity op).2 ∧
      (m.apply op).2.capacity = m.capacity := by
  cases op with
  | put key value =>
      obtain ⟨hanswer, hkept⟩ := h.put key value
      exact ⟨congrArg Answer.value hanswer, hkept, rfl⟩
  | get key =>
      obtain ⟨hanswer, hkept⟩ := h.get? key
      exact ⟨congrArg Answer.value hanswer, hkept, rfl⟩
  | peek key => exact ⟨congrArg Answer.value (h.peek?_eq key), h, rfl⟩
  | contains key => exact ⟨congrArg Answer.truth (h.contains_eq key), h, rfl⟩
  | remove key =>
      obtain ⟨hanswer, hkept⟩ := h.remove key
      exact ⟨congrArg Answer.value hanswer, hkept, rfl⟩
  | clear => exact ⟨rfl, Slab.holds_empty, rfl⟩

theorem run_holds (h : m.slab.Holds l) (ops : List (Operation κ υ)) :
    (m.run ops).slab.Holds (l.run m.capacity ops) ∧ (m.run ops).capacity = m.capacity := by
  induction ops generalizing m l with
  | nil => exact ⟨h, rfl⟩
  | cons op rest ih =>
      obtain ⟨-, hkept, hcapacity⟩ := apply_holds h op
      obtain ⟨hheld, hsame⟩ := ih hkept
      rw [hcapacity] at hheld hsame
      exact ⟨hheld, hsame⟩

end RecencyMap

namespace RecencyList

variable {κ υ : Type} [BEq κ] {l l' : RecencyList κ υ} {touches : List κ} {key : κ}

/-- The keys stand in the order in which they were last touched. -/
structure OrderedBy (l : RecencyList κ υ) (touches : List κ) : Prop where
  touched : ∀ key ∈ l.map (·.1), key ∈ touches
  later : (l.map (·.1)).Pairwise fun key older => touches.idxOf key < touches.idxOf older

theorem OrderedBy.nil (touches : List κ) : OrderedBy ([] : RecencyList κ υ) touches :=
  ⟨nofun, List.Pairwise.nil⟩

theorem OrderedBy.sublist (h : l.OrderedBy touches) (hsub : l'.Sublist l) :
    l'.OrderedBy touches where
  touched key hkey := h.touched key ((hsub.map _).subset hkey)
  later := h.later.sublist (hsub.map _)

variable [LawfulBEq κ]

theorem contains_iff : l.contains key = true ↔ key ∈ l.map (·.1) := by
  rw [contains, Option.isSome_iff_ne_none, Ne, peek?, List.lookup_eq_none_iff, List.mem_map]
  constructor
  · intro h
    by_contra hnone
    refine h fun entry hentry => bne_iff_ne.mpr ?_
    rintro rfl
    exact hnone ⟨entry, hentry, rfl⟩
  · rintro ⟨entry, hentry, rfl⟩ h
    exact absurd rfl (bne_iff_ne.mp (h entry hentry))

namespace OrderedBy

theorem cons (h : l.OrderedBy touches) (hfresh : key ∉ l.map (·.1)) (value : υ) :
    OrderedBy ((key, value) :: l) (key :: touches) := by
  have hidx {other : κ} (hother : other ∈ l.map (·.1)) :
      (key :: touches).idxOf other = touches.idxOf other + 1 := by
    refine List.idxOf_cons_ne _ ?_
    rintro rfl
    exact hfresh hother
  constructor
  · intro other hother
    rcases List.mem_cons.mp hother with rfl | hother
    · exact List.mem_cons_self
    · exact List.mem_cons_of_mem _ (h.touched other hother)
  · refine List.pairwise_cons.mpr ⟨?_, ?_⟩
    · intro other hother
      rw [hidx hother, List.idxOf_cons_self]
      exact Nat.succ_pos _
    · refine h.later.imp_of_mem ?_
      intro other older hother holder hlt
      rw [hidx hother, hidx holder]
      exact Nat.succ_lt_succ hlt

theorem moved (h : l.OrderedBy touches) (value : υ) :
    OrderedBy ((key, value) :: l.without key) (key :: touches) := by
  refine (h.sublist List.filter_sublist).cons ?_ value
  intro hmem
  obtain ⟨entry, hentry, hkey⟩ := List.mem_map.mp hmem
  exact absurd hkey (bne_iff_ne.mp (List.mem_filter.mp hentry).2)

end OrderedBy

end RecencyList

namespace RecencyMap

variable {κ υ : Type} [BEq κ] [Hashable κ] [LawfulBEq κ] {m : RecencyMap κ υ}
  {l : RecencyList κ υ}

theorem orderedBy_apply {touches : List κ} (h : m.slab.Holds l) (horder : l.OrderedBy touches)
    (op : Operation κ υ) :
    RecencyList.OrderedBy (l.apply m.capacity op).2 ((m.touched? op).toList ++ touches) := by
  cases op with
  | put key value =>
      simp only [RecencyList.apply, RecencyList.put, touched?]
      cases hfound : l.peek? key with
      | some old => exact horder.moved value
      | none =>
          have hfresh : key ∉ l.map (·.1) := by
            rw [← RecencyList.contains_iff, RecencyList.contains, hfound]
            exact Bool.false_ne_true
          simp only [Prod.map, id]
          split
          · refine (horder.sublist (List.dropLast_sublist l)).cons ?_ value
            rw [List.map_dropLast]
            exact fun hmem => hfresh (List.dropLast_subset _ hmem)
          · exact horder.cons hfresh value
  | get key =>
      have hcontains : m.contains key = (l.peek? key).isSome := h.contains_eq key
      simp only [RecencyList.apply, RecencyList.get?, touched?, hcontains]
      cases l.peek? key with
      | some value => exact horder.moved value
      | none => exact horder
  | peek key => exact horder
  | contains key => exact horder
  | remove key =>
      simp only [RecencyList.apply, RecencyList.remove]
      cases l.peek? key with
      | some value => exact horder.sublist List.filter_sublist
      | none => exact horder
  | clear => exact .nil _

theorem orderedBy_run {touches : List κ} (h : m.slab.Holds l) (horder : l.OrderedBy touches)
    (ops : List (Operation κ υ)) :
    (l.run m.capacity ops).OrderedBy (m.touches ops ++ touches) := by
  induction ops generalizing m l touches with
  | nil => exact horder
  | cons op rest ih =>
      obtain ⟨-, hkept, hcapacity⟩ := apply_holds h op
      have hrest := ih hkept (orderedBy_apply h horder op)
      rw [hcapacity, ← List.append_assoc] at hrest
      exact hrest

/-- A new key takes the place of the last one in a full map, which was touched before all others. -/
theorem put_full {touches : List κ} (h : m.slab.Holds l) (horder : l.OrderedBy touches)
    {key : κ} (hfresh : m.contains key = false) (hfull : m.size = m.capacity) (value : υ) :
    ∃ kept oldest, m.keys = kept ++ [oldest] ∧ (m.put key value).2.keys = key :: kept ∧
      ∀ other ∈ kept, touches.idxOf other < touches.idxOf oldest := by
  have hlength : l.length = m.capacity := h.size_eq.symm.trans hfull
  have hkeys : m.keys = l.map (·.1) := by
    rw [keys, toList, h.toList_eq]
  have hnone : l.peek? key = none := by
    have hcontains : m.contains key = (l.peek? key).isSome := h.contains_eq key
    rwa [hfresh, eq_comm, Option.isSome_eq_false_iff, Option.isNone_iff_eq_none] at hcontains
  rcases List.eq_nil_or_concat l with rfl | ⟨front, ⟨oldest, found⟩, rfl⟩
  · have hpos := m.capacity_pos
    rw [← hlength] at hpos
    exact absurd hpos (Nat.lt_irrefl 0)
  · rw [List.concat_eq_append] at *
    refine ⟨front.map (·.1), oldest, by simp [hkeys], ?_, ?_⟩
    · have hput : (m.slab.put m.capacity key value).2.Holds _ := (h.put key value).2
      simp only [RecencyList.put, hnone, hlength, if_true, List.dropLast_concat] at hput
      rw [keys, toList, put, hput.toList_eq]
      rfl
    · have hlater := horder.later
      rw [List.map_append, List.pairwise_append] at hlater
      intro other hother
      exact hlater.2.2 other hother oldest List.mem_cons_self

/-- After any run of operations a map looks like the list that went through the same run, and it
answers every further operation like that list. It is never longer than its capacity, and when it
is full a new key takes the place of the key that was last touched before all others. In its slab
the links, the index and the free slots agree. -/
theorem run_mirrors_list (capacity : Nat) (hpos : 0 < capacity) (ops : List (Operation κ υ)) :
    let m := (empty capacity hpos : RecencyMap κ υ).run ops
    let l := RecencyList.run [] capacity ops
    let touches := (empty capacity hpos : RecencyMap κ υ).touches ops
    m.view = l.view ∧
      (∀ op, (m.apply op).1 = (l.apply capacity op).1) ∧
      m.walk.Yields l ∧
      m.size ≤ capacity ∧
      (∀ key value, m.contains key = false → m.size = capacity →
        ∃ kept oldest, m.keys = kept ++ [oldest] ∧ (m.put key value).2.keys = key :: kept ∧
          ∀ other ∈ kept, touches.idxOf other < touches.idxOf oldest) ∧
      (∃ cells, m.slab.Threads cells ∧ Slab.bindings cells = l) ∧
      ∀ i j, m.slab.nextOf? i = some j ↔ m.slab.prevOf? j = some i := by
  intro m l touches
  obtain ⟨hheld, hcapacity⟩ : m.slab.Holds l ∧ m.capacity = capacity :=
    run_holds Slab.holds_empty ops
  have horder : l.OrderedBy touches := by
    have hrun := orderedBy_run (m := empty capacity hpos) Slab.holds_empty (.nil []) ops
    rwa [List.append_nil] at hrun
  refine ⟨view_eq hheld, ?_, hheld.yields, ?_, ?_, hheld, ?_⟩
  · intro op
    rw [← hcapacity]
    exact (apply_holds hheld op).1
  · obtain ⟨l', hl', hfits⟩ := m.holds
    rw [← hcapacity]
    exact Nat.le_trans (Nat.le_of_eq hl'.size_eq) hfits
  · intro key value hfresh hfull
    rw [← hcapacity] at hfull
    exact put_full hheld horder hfresh hfull value
  · intro i j
    obtain ⟨cells, hcells, -⟩ := hheld
    exact hcells.nextOf?_eq_some_iff

/-- With room for two keys: the third new key drives out the one that was not looked up, a removed
key leaves its slot to the next new one, and looking without touching saves no key. -/
theorem run_mirrors_list_crowded :
    0 < 2 ∧
    ((empty 2 Nat.two_pos : RecencyMap Nat Nat).run
      [.put 1 10, .put 2 20, .get 1, .put 3 30, .remove 1, .put 4 40, .peek 3, .contains 3,
        .get 2, .put 5 50]).view =
      { size := 2, isEmpty := false, keys := [5, 4], values := [50, 40],
        sizeHint := (2, some 2) } := by
  refine ⟨Nat.two_pos, ?_⟩
  rw [(run_mirrors_list 2 Nat.two_pos _).1]
  decide

end RecencyMap

end Stencil
