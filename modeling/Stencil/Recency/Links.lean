import Stencil.Recency.Slab

/-! Links along a list of cells. A thread is opened at one place by leading both sides of the gap to
other slots, and this is all that taking an entry out and putting one in front do. -/

namespace Stencil.Slab

structure Cell (κ υ : Type) where
  slot : Nat
  key : κ
  value : υ

section Ends

variable {κ υ : Type}

def frontSlot (cells : List (Cell κ υ)) : Option Nat :=
  cells.head?.map Cell.slot

def backSlot (cells : List (Cell κ υ)) : Option Nat :=
  cells.getLast?.map Cell.slot

@[simp] theorem frontSlot_nil : frontSlot ([] : List (Cell κ υ)) = none := rfl

@[simp] theorem frontSlot_cons (c : Cell κ υ) (rest : List (Cell κ υ)) :
    frontSlot (c :: rest) = some c.slot := rfl

@[simp] theorem backSlot_nil : backSlot ([] : List (Cell κ υ)) = none := rfl

@[simp] theorem backSlot_singleton (c : Cell κ υ) : backSlot [c] = some c.slot := rfl

@[simp] theorem backSlot_cons_cons (c d : Cell κ υ) (rest : List (Cell κ υ)) :
    backSlot (c :: d :: rest) = backSlot (d :: rest) := by
  simp [backSlot]

theorem frontSlot_append (xs ys : List (Cell κ υ)) :
    frontSlot (xs ++ ys) = (frontSlot xs).or (frontSlot ys) := by
  cases xs <;> simp

theorem backSlot_append (xs ys : List (Cell κ υ)) :
    backSlot (xs ++ ys) = (backSlot ys).or (backSlot xs) := by
  simp only [backSlot, List.getLast?_append]
  cases ys.getLast? <;> simp

theorem mem_of_frontSlot {cells : List (Cell κ υ)} {i : Nat} (h : frontSlot cells = some i) :
    i ∈ cells.map Cell.slot := by
  obtain ⟨c, hc, rfl⟩ := Option.map_eq_some_iff.mp h
  exact List.mem_map_of_mem (List.mem_of_head? hc)

theorem mem_of_backSlot {cells : List (Cell κ υ)} {i : Nat} (h : backSlot cells = some i) :
    i ∈ cells.map Cell.slot := by
  obtain ⟨c, hc, rfl⟩ := Option.map_eq_some_iff.mp h
  exact List.mem_map_of_mem (List.mem_of_getLast? hc)

end Ends

variable {κ υ : Type} [BEq κ] [Hashable κ] {s s' : Slab κ υ}

theorem entryAt?_modifyEntry (s : Slab κ υ) (i j : Nat) (f : Entry κ υ → Entry κ υ) :
    (s.modifyEntry i f).entryAt? j = if i = j then (s.entryAt? j).map f else s.entryAt? j := by
  simp only [entryAt?, modifyEntry, Array.getElem?_modify]
  split
  · cases s.slots[j]? <;> rfl
  · rfl

theorem entryAt?_linkNext_of_ne {i : Option Nat} {j : Nat} (h : i ≠ some j) (next : Option Nat) :
    (s.linkNext i next).entryAt? j = s.entryAt? j := by
  cases i with
  | none => rfl
  | some i => rw [linkNext, entryAt?_modifyEntry, if_neg fun hij => h (congrArg some hij)]

theorem entryAt?_linkPrev_of_ne {i : Option Nat} {j : Nat} (h : i ≠ some j) (prev : Option Nat) :
    (s.linkPrev i prev).entryAt? j = s.entryAt? j := by
  cases i with
  | none => rfl
  | some i => rw [linkPrev, entryAt?_modifyEntry, if_neg fun hij => h (congrArg some hij)]

/-- The cells stand in their slots, linked in a row between the given neighbours. -/
def Segment (s : Slab κ υ) (prev : Option Nat) (cells : List (Cell κ υ)) (next : Option Nat) :
    Prop :=
  match cells with
  | [] => True
  | c :: rest =>
      s.entryAt? c.slot = some ⟨c.key, c.value, prev, (frontSlot rest).or next⟩ ∧
        s.Segment (some c.slot) rest next

theorem segment_append {prev next : Option Nat} {xs ys : List (Cell κ υ)} :
    s.Segment prev (xs ++ ys) next ↔
      s.Segment prev xs ((frontSlot ys).or next) ∧ s.Segment ((backSlot xs).or prev) ys next := by
  induction xs generalizing prev with
  | nil => simp [Segment]
  | cons c rest ih =>
      simp only [List.cons_append, Segment, ih, frontSlot_append, Option.or_assoc, and_assoc]
      cases rest with
      | nil => simp
      | cons d rest =>
          have hback : ((backSlot (d :: rest)).or (some c.slot)) =
              (backSlot (c :: d :: rest)).or prev := by
            rw [backSlot_cons_cons]
            simp [backSlot, List.getLast?_cons]
          rw [hback]

theorem Segment.congr {prev next : Option Nat} {cells : List (Cell κ υ)}
    (h : s.Segment prev cells next)
    (hsame : ∀ c ∈ cells, s'.entryAt? c.slot = s.entryAt? c.slot) : s'.Segment prev cells next := by
  induction cells generalizing prev with
  | nil => trivial
  | cons c rest ih =>
      refine ⟨(hsame c List.mem_cons_self).trans h.1, ih h.2 ?_⟩
      intro d hd
      exact hsame d (List.mem_cons_of_mem c hd)

theorem Segment.entryAt?_eq {prev next : Option Nat} {before after : List (Cell κ υ)} {c : Cell κ υ}
    (h : s.Segment prev (before ++ c :: after) next) :
    s.entryAt? c.slot =
      some ⟨c.key, c.value, (backSlot before).or prev, (frontSlot after).or next⟩ :=
  (segment_append.mp h).2.1

theorem Segment.linkNext {prev next : Option Nat} {cells : List (Cell κ υ)}
    (h : s.Segment prev cells next) (hnodup : (cells.map Cell.slot).Nodup)
    (next' : Option Nat) : (s.linkNext (backSlot cells) next').Segment prev cells next' := by
  induction cells generalizing prev with
  | nil => trivial
  | cons c rest ih =>
      obtain ⟨hentry, hrest⟩ := h
      rw [List.map_cons, List.nodup_cons] at hnodup
      cases rest with
      | nil =>
          refine ⟨?_, trivial⟩
          simp only [backSlot_singleton, Slab.linkNext, entryAt?_modifyEntry, if_true, hentry]
          simp
      | cons d rest =>
          have hother : backSlot (d :: rest) ≠ some c.slot :=
            fun hback => hnodup.1 (mem_of_backSlot hback)
          rw [backSlot_cons_cons]
          refine ⟨?_, ih hrest hnodup.2⟩
          rw [entryAt?_linkNext_of_ne hother, hentry]
          simp

theorem Segment.linkPrev {prev next : Option Nat} {cells : List (Cell κ υ)}
    (h : s.Segment prev cells next) (hnodup : (cells.map Cell.slot).Nodup)
    (prev' : Option Nat) : (s.linkPrev (frontSlot cells) prev').Segment prev' cells next := by
  cases cells with
  | nil => trivial
  | cons c rest =>
      obtain ⟨hentry, hrest⟩ := h
      rw [List.map_cons, List.nodup_cons] at hnodup
      refine ⟨?_, hrest.congr ?_⟩
      · simp [Slab.linkPrev, entryAt?_modifyEntry, hentry]
      · intro d hd
        refine entryAt?_linkPrev_of_ne ?_ prev'
        intro heq
        refine hnodup.1 (List.mem_map.mpr ⟨d, hd, ?_⟩)
        exact (Option.some.inj heq).symm

/-- The cells in front of a gap lead into it and so do those behind it, but to different slots. -/
structure Parted (s : Slab κ υ) (before after : List (Cell κ υ)) (next prev : Option Nat) :
    Prop where
  nodup : ((before ++ after).map Cell.slot).Nodup
  head : s.head = (frontSlot before).or next
  tail : s.tail = (backSlot after).or prev
  front : s.Segment none before next
  back : s.Segment prev after none

/-- The links lead from the head along the cells to the tail, and back. -/
structure Linked (s : Slab κ υ) (cells : List (Cell κ υ)) : Prop where
  nodup : (cells.map Cell.slot).Nodup
  head : s.head = frontSlot cells
  tail : s.tail = backSlot cells
  segment : s.Segment none cells none

theorem linked_append {before after : List (Cell κ υ)} :
    s.Linked (before ++ after) ↔ s.Parted before after (frontSlot after) (backSlot before) := by
  constructor
  · intro h
    obtain ⟨hfront, hback⟩ := segment_append.mp h.segment
    simp only [Option.or_none] at hfront hback
    exact ⟨h.nodup, h.head.trans (frontSlot_append _ _), h.tail.trans (backSlot_append _ _),
      hfront, hback⟩
  · intro h
    refine ⟨h.nodup, h.head.trans (frontSlot_append _ _).symm,
      h.tail.trans (backSlot_append _ _).symm, ?_⟩
    rw [segment_append, Option.or_none, Option.or_none]
    exact ⟨h.front, h.back⟩

theorem Linked.congr {cells : List (Cell κ υ)} (h : s.Linked cells) (hhead : s'.head = s.head)
    (htail : s'.tail = s.tail) (hsame : ∀ c ∈ cells, s'.entryAt? c.slot = s.entryAt? c.slot) :
    s'.Linked cells where
  nodup := h.nodup
  head := hhead.trans h.head
  tail := htail.trans h.tail
  segment := h.segment.congr hsame

/-- Around a cell the thread has a gap into which both sides lead. -/
theorem linked_append_cons {before after : List (Cell κ υ)} {c : Cell κ υ} :
    s.Linked (before ++ c :: after) ↔
      s.Parted before after (some c.slot) (some c.slot) ∧
        c.slot ∉ (before ++ after).map Cell.slot ∧
        s.entryAt? c.slot = some ⟨c.key, c.value, backSlot before, frontSlot after⟩ := by
  have hperm : (before ++ c :: after).Perm (c :: (before ++ after)) := List.perm_middle
  have hnodup : ((before ++ c :: after).map Cell.slot).Nodup ↔
      c.slot ∉ (before ++ after).map Cell.slot ∧ ((before ++ after).map Cell.slot).Nodup := by
    rw [(hperm.map Cell.slot).nodup_iff, List.map_cons, List.nodup_cons]
  rw [linked_append]
  constructor
  · intro h
    have hback := h.back
    simp only [Segment, Option.or_none] at hback
    refine ⟨⟨(hnodup.mp h.nodup).2, h.head, ?_, h.front, hback.2⟩, (hnodup.mp h.nodup).1, hback.1⟩
    rw [h.tail]
    cases after <;> simp [backSlot, List.getLast?_cons]
  · rintro ⟨h, hfresh, hentry⟩
    refine ⟨hnodup.mpr ⟨hfresh, h.nodup⟩, h.head, ?_, h.front, ?_⟩
    · rw [h.tail]
      cases after <;> simp [backSlot, List.getLast?_cons]
    · simp only [Segment, Option.or_none]
      exact ⟨hentry, h.back⟩

namespace Parted

variable {before after : List (Cell κ υ)} {next prev : Option Nat}

theorem nodup_before (h : s.Parted before after next prev) : (before.map Cell.slot).Nodup := by
  have hnodup := h.nodup
  rw [List.map_append, List.nodup_append] at hnodup
  exact hnodup.1

theorem nodup_after (h : s.Parted before after next prev) : (after.map Cell.slot).Nodup := by
  have hnodup := h.nodup
  rw [List.map_append, List.nodup_append] at hnodup
  exact hnodup.2.1

theorem disjoint (h : s.Parted before after next prev) {i : Nat}
    (hbefore : i ∈ before.map Cell.slot) (hafter : i ∈ after.map Cell.slot) : False := by
  have hnodup := h.nodup
  rw [List.map_append, List.nodup_append] at hnodup
  exact hnodup.2.2 i hbefore i hafter rfl

theorem linkNext (h : s.Parted before after next prev) (next' : Option Nat) :
    (s.linkNext (backSlot before) next').Parted before after next' prev where
  nodup := h.nodup
  head := by
    cases before with
    | nil => rfl
    | cons c rest =>
        have hhead := h.head
        obtain ⟨i, hi⟩ : ∃ i, backSlot (c :: rest) = some i := by
          simp [backSlot, List.getLast?_cons]
        simpa [hi, Slab.linkNext, modifyEntry] using hhead
  tail := by
    have htail := h.tail
    cases hback : backSlot before <;> exact htail
  front := h.front.linkNext h.nodup_before next'
  back := by
    refine h.back.congr ?_
    intro c hc
    refine entryAt?_linkNext_of_ne ?_ next'
    intro hback
    exact h.disjoint (mem_of_backSlot hback) (List.mem_map_of_mem hc)

theorem linkPrev (h : s.Parted before after next prev) (prev' : Option Nat) :
    (s.linkPrev (frontSlot after) prev').Parted before after next prev' where
  nodup := h.nodup
  head := by
    have hhead := h.head
    cases hfront : frontSlot after <;> exact hhead
  tail := by
    cases after with
    | nil => rfl
    | cons c rest =>
        have htail := h.tail
        obtain ⟨i, hi⟩ : ∃ i, backSlot (c :: rest) = some i := by
          simp [backSlot, List.getLast?_cons]
        simpa [hi, Slab.linkPrev, modifyEntry] using htail
  front := by
    refine h.front.congr ?_
    intro c hc
    refine entryAt?_linkPrev_of_ne ?_ prev'
    intro hfront
    exact h.disjoint (List.mem_map_of_mem hc) (mem_of_frontSlot hfront)
  back := h.back.linkPrev h.nodup_after prev'

theorem modifyEntry (h : s.Parted before after next prev) {i : Nat}
    (hi : i ∉ (before ++ after).map Cell.slot) (f : Entry κ υ → Entry κ υ) :
    (s.modifyEntry i f).Parted before after next prev where
  nodup := h.nodup
  head := h.head
  tail := h.tail
  front := by
    refine h.front.congr ?_
    intro c hc
    rw [entryAt?_modifyEntry, if_neg]
    rintro rfl
    exact hi (List.mem_map_of_mem (List.mem_append_left after hc))
  back := by
    refine h.back.congr ?_
    intro c hc
    rw [entryAt?_modifyEntry, if_neg]
    rintro rfl
    exact hi (List.mem_map_of_mem (List.mem_append_right before hc))

end Parted

def filled? (s : Slab κ υ) (i : Nat) : Option Bool :=
  (s.slots[i]?).map Option.isSome

theorem filled?_eq_true {i : Nat} : s.filled? i = some true ↔ ∃ e, s.entryAt? i = some e := by
  simp only [filled?, entryAt?]
  rcases s.slots[i]? with _ | _ | e <;> simp

structure SameShape (s s' : Slab κ υ) : Prop where
  index : s'.index = s.index
  free : s'.free = s.free
  filled : ∀ i, s'.filled? i = s.filled? i

namespace SameShape

theorem refl (s : Slab κ υ) : s.SameShape s :=
  ⟨rfl, rfl, fun _ => rfl⟩

theorem trans {s'' : Slab κ υ} (h : s.SameShape s') (h' : s'.SameShape s'') :
    s.SameShape s'' where
  index := h'.index.trans h.index
  free := h'.free.trans h.free
  filled i := (h'.filled i).trans (h.filled i)

theorem modifyEntry (s : Slab κ υ) (i : Nat) (f : Entry κ υ → Entry κ υ) :
    s.SameShape (s.modifyEntry i f) where
  index := rfl
  free := rfl
  filled j := by
    simp only [filled?, Slab.modifyEntry, Array.getElem?_modify]
    split
    · rcases s.slots[j]? with _ | _ | e <;> rfl
    · rfl

theorem linkNext (s : Slab κ υ) (i next : Option Nat) : s.SameShape (s.linkNext i next) := by
  cases i with
  | none => exact ⟨rfl, rfl, fun _ => rfl⟩
  | some i => exact modifyEntry s i _

theorem linkPrev (s : Slab κ υ) (i prev : Option Nat) : s.SameShape (s.linkPrev i prev) := by
  cases i with
  | none => exact ⟨rfl, rfl, fun _ => rfl⟩
  | some i => exact modifyEntry s i _

theorem detach (s : Slab κ υ) (i : Nat) : s.SameShape (s.detach i) := by
  simp only [Slab.detach]
  split
  · exact SameShape.trans (SameShape.trans (modifyEntry s i _) (linkNext _ _ _)) (linkPrev _ _ _)
  · exact refl s

theorem attachFront (s : Slab κ υ) (i : Nat) : s.SameShape (s.attachFront i) := by
  simp only [Slab.attachFront]
  exact SameShape.trans (SameShape.trans (modifyEntry s i _) (linkPrev _ _ _)) (linkNext _ _ _)

theorem promote (s : Slab κ υ) (i : Nat) : s.SameShape (s.promote i) := by
  simp only [Slab.promote]
  split
  · exact refl s
  · exact SameShape.trans (detach s i) (attachFront _ i)

end SameShape

namespace Linked

variable {before after cells : List (Cell κ υ)} {c : Cell κ υ}

theorem entryAt?_detach (h : s.Linked (before ++ c :: after)) :
    (s.detach c.slot).entryAt? c.slot = some ⟨c.key, c.value, none, none⟩ := by
  obtain ⟨-, hfresh, hentry⟩ := linked_append_cons.mp h
  rw [List.map_append, List.mem_append, not_or] at hfresh
  have hback : backSlot before ≠ some c.slot := fun heq => hfresh.1 (mem_of_backSlot heq)
  have hfront : frontSlot after ≠ some c.slot := fun heq => hfresh.2 (mem_of_frontSlot heq)
  simp only [Slab.detach, hentry]
  rw [entryAt?_linkPrev_of_ne hfront, entryAt?_linkNext_of_ne hback, entryAt?_modifyEntry,
    if_pos rfl, hentry]
  rfl

theorem detach (h : s.Linked (before ++ c :: after)) :
    (s.detach c.slot).Linked (before ++ after) := by
  obtain ⟨hparted, hfresh, hentry⟩ := linked_append_cons.mp h
  simp only [Slab.detach, hentry]
  rw [linked_append]
  exact ((hparted.modifyEntry hfresh _).linkNext _).linkPrev _

theorem attachFront (h : s.Linked cells) (hfresh : c.slot ∉ cells.map Cell.slot)
    {e : Entry κ υ} (hentry : s.entryAt? c.slot = some e) (hkey : e.key = c.key)
    (hvalue : e.value = c.value) : (s.attachFront c.slot).Linked (c :: cells) := by
  have hfront : frontSlot cells ≠ some c.slot := fun heq => hfresh (mem_of_frontSlot heq)
  have hparted : s.Parted [] cells (frontSlot cells) none := linked_append.mp h
  rw [← List.nil_append (c :: cells), linked_append_cons]
  refine ⟨?_, hfresh, ?_⟩
  · simp only [Slab.attachFront, h.head]
    exact ((hparted.modifyEntry hfresh _).linkPrev _).linkNext _
  · simp only [Slab.attachFront, h.head, Slab.linkNext]
    refine (entryAt?_linkPrev_of_ne hfront _).trans ?_
    rw [entryAt?_modifyEntry, if_pos rfl, hentry, Option.map_some, hkey, hvalue]
    rfl

theorem promote (h : s.Linked (before ++ c :: after)) :
    (s.promote c.slot).Linked (c :: (before ++ after)) := by
  obtain ⟨hparted, hfresh, -⟩ := linked_append_cons.mp h
  simp only [Slab.promote]
  split
  · rename_i hhead
    cases before with
    | nil => exact h
    | cons d rest =>
        have hd : d.slot = c.slot := by
          rw [h.head] at hhead
          exact Option.some.inj hhead
        exact absurd (by simp [hd]) hfresh
  · exact h.detach.attachFront hfresh h.entryAt?_detach rfl rfl

theorem entryAt?_of_mem (h : s.Linked cells) (hc : c ∈ cells) :
    ∃ e, s.entryAt? c.slot = some e ∧ e.value = c.value := by
  obtain ⟨before, after, rfl⟩ := List.append_of_mem hc
  exact ⟨_, h.segment.entryAt?_eq, rfl⟩

theorem filled?_of_mem (h : s.Linked cells) {i : Nat} (hi : i ∈ cells.map Cell.slot) :
    s.filled? i = some true := by
  obtain ⟨c, hc, rfl⟩ := List.mem_map.mp hi
  obtain ⟨e, hentry, -⟩ := h.entryAt?_of_mem hc
  exact filled?_eq_true.mpr ⟨e, hentry⟩

theorem replaceFront (h : s.Linked (c :: cells)) (value : υ) :
    (s.modifyEntry c.slot fun e => { e with value }).Linked ({ c with value } :: cells) := by
  rw [← List.nil_append (c :: cells), linked_append_cons] at h
  obtain ⟨hparted, hfresh, hentry⟩ := h
  rw [← List.nil_append (_ :: cells), linked_append_cons]
  refine ⟨hparted.modifyEntry hfresh _, hfresh, ?_⟩
  rw [entryAt?_modifyEntry, if_pos rfl, hentry]
  rfl

end Linked

end Stencil.Slab
