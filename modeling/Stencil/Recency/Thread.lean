import Stencil.Recency.Links
import Stencil.Recency.List

/-! Slabs that hold a recency list: their thread runs through the bindings in the order of the list,
and the index and the free slots agree with it. Every operation of the slab does to the list what
the operation of the same name does. -/

namespace Stencil.Slab

section Bindings

variable {κ υ : Type}

def bindings (cells : List (Cell κ υ)) : RecencyList κ υ :=
  cells.map fun c => (c.key, c.value)

theorem bindings_append_cons (before : List (Cell κ υ)) (c : Cell κ υ) (after : List (Cell κ υ)) :
    bindings (before ++ c :: after) = bindings before ++ (c.key, c.value) :: bindings after := by
  simp [bindings]

variable [BEq κ] [LawfulBEq κ] {cells before after : List (Cell κ υ)} {c : Cell κ υ} {key : κ}

theorem peek?_bindings_of_notMem (h : key ∉ cells.map Cell.key) :
    (bindings cells).peek? key = none := by
  rw [RecencyList.peek?, List.lookup_eq_none_iff]
  intro entry hentry
  obtain ⟨c, hc, rfl⟩ := List.mem_map.mp hentry
  rw [bne_iff_ne]
  rintro rfl
  exact h (List.mem_map_of_mem hc)

theorem without_bindings_of_notMem (h : key ∉ cells.map Cell.key) :
    (bindings cells).without key = bindings cells := by
  rw [RecencyList.without, List.filter_eq_self]
  intro entry hentry
  obtain ⟨c, hc, rfl⟩ := List.mem_map.mp hentry
  rw [bne_iff_ne]
  rintro rfl
  exact h (List.mem_map_of_mem hc)

theorem peek?_bindings (h : ((before ++ c :: after).map Cell.key).Nodup) :
    (bindings (before ++ c :: after)).peek? c.key = some c.value := by
  rw [List.map_append, List.map_cons, List.nodup_append] at h
  have hbefore : c.key ∉ before.map Cell.key :=
    fun hmem => h.2.2 c.key hmem c.key List.mem_cons_self rfl
  have hnone := peek?_bindings_of_notMem hbefore
  rw [RecencyList.peek?] at hnone
  rw [RecencyList.peek?, bindings_append_cons, List.lookup_append, hnone]
  simp

theorem without_bindings (h : ((before ++ c :: after).map Cell.key).Nodup) :
    (bindings (before ++ c :: after)).without c.key = bindings (before ++ after) := by
  rw [List.map_append, List.map_cons, List.nodup_append, List.nodup_cons] at h
  have hbefore : c.key ∉ before.map Cell.key :=
    fun hmem => h.2.2 c.key hmem c.key List.mem_cons_self rfl
  have hkept := without_bindings_of_notMem hbefore
  have hkept' := without_bindings_of_notMem h.2.1.1
  rw [RecencyList.without] at hkept hkept'
  rw [RecencyList.without, bindings_append_cons, List.filter_append, List.filter_cons, hkept,
    hkept']
  simp [bindings]

end Bindings

variable {κ υ : Type} [BEq κ] [Hashable κ] {s s' : Slab κ υ}

structure Threads (s : Slab κ υ) (cells : List (Cell κ υ)) : Prop where
  linked : s.Linked cells
  keys_nodup : (cells.map Cell.key).Nodup
  indexed : ∀ key i, s.index[key]? = some i ↔ ∃ c ∈ cells, c.key = key ∧ c.slot = i
  occupied : ∀ i, s.filled? i = some true → i ∈ cells.map Cell.slot
  vacant : ∀ i, i ∈ s.free ↔ s.filled? i = some false
  free_nodup : s.free.Nodup

def Holds (s : Slab κ υ) (l : RecencyList κ υ) : Prop :=
  ∃ cells, s.Threads cells ∧ bindings cells = l

namespace Threads

variable {cells cells' before after : List (Cell κ υ)} {c : Cell κ υ}

theorem rearranged (h : s.Threads cells) (hshape : s.SameShape s') (hlinked : s'.Linked cells')
    (hslots : ∀ key i, (∃ c ∈ cells', c.key = key ∧ c.slot = i) ↔
      ∃ c ∈ cells, c.key = key ∧ c.slot = i)
    (hnodup : (cells'.map Cell.key).Nodup) : s'.Threads cells' where
  linked := hlinked
  keys_nodup := hnodup
  indexed key i := by
    rw [hshape.index, h.indexed, hslots]
  occupied i hi := by
    rw [hshape.filled] at hi
    obtain ⟨c, hc, rfl⟩ := List.mem_map.mp (h.occupied i hi)
    obtain ⟨c', hc', -, hslot⟩ := (hslots c.key c.slot).mpr ⟨c, hc, rfl, rfl⟩
    exact List.mem_map.mpr ⟨c', hc', hslot⟩
  vacant i := by
    rw [hshape.free, hshape.filled]
    exact h.vacant i
  free_nodup := by
    rw [hshape.free]
    exact h.free_nodup

theorem promote (h : s.Threads (before ++ c :: after)) :
    (s.promote c.slot).Threads (c :: (before ++ after)) := by
  have hperm : (before ++ c :: after).Perm (c :: (before ++ after)) := List.perm_middle
  refine h.rearranged (.promote s c.slot) h.linked.promote ?_ ?_
  · intro key i
    simp only [hperm.mem_iff]
  · exact (hperm.map Cell.key).nodup_iff.mp h.keys_nodup

theorem replace (h : s.Threads (before ++ c :: after)) (value : υ) :
    (s.replace c.slot value).1 = some c.value ∧
      (s.replace c.slot value).2.Threads ({ c with value } :: (before ++ after)) := by
  have hfront := h.promote
  constructor
  · obtain ⟨e, hentry, hvalue⟩ := hfront.linked.entryAt?_of_mem List.mem_cons_self
    simp only [Slab.replace, hentry, Option.map_some, hvalue]
  · refine hfront.rearranged (.modifyEntry _ c.slot _) (hfront.linked.replaceFront value) ?_ ?_
    · intro key i
      simp only [List.mem_cons, exists_eq_or_imp]
    · exact hfront.keys_nodup

theorem slot_notMem (h : s.Threads cells) {i : Nat} (hi : s.filled? i ≠ some true) :
    i ∉ cells.map Cell.slot :=
  fun hmem => hi (h.linked.filled?_of_mem hmem)

theorem entryAt?_set (s : Slab κ υ) {i : Nat} (hi : i < s.slots.size) (slot : Option (Entry κ υ))
    (j : Nat) :
    ((s.slots.setIfInBounds i slot)[j]?).join = if i = j then slot else s.entryAt? j := by
  rw [Array.getElem?_setIfInBounds]
  split
  · rename_i hij
    subst hij
    rfl
  · rfl

theorem filled?_set (s : Slab κ υ) {i : Nat} (hi : i < s.slots.size) (slot : Option (Entry κ υ))
    (j : Nat) :
    ((s.slots.setIfInBounds i slot)[j]?).map Option.isSome =
      if i = j then some slot.isSome else s.filled? j := by
  rw [Array.getElem?_setIfInBounds]
  split
  · rename_i hij
    subst hij
    rfl
  · rfl

end Threads

theorem lt_size_of_filled? {i : Nat} {b : Bool} (h : s.filled? i = some b) :
    i < s.slots.size := by
  obtain ⟨slot, hslot, -⟩ := Option.map_eq_some_iff.mp h
  exact (Array.getElem?_eq_some_iff.mp hslot).1

namespace Threads

variable {cells cells' before after : List (Cell κ υ)} {c : Cell κ υ} [LawfulBEq κ]

theorem release (h : s.Threads (before ++ c :: after)) :
    (s.release c.slot).1 = some (c.key, c.value) ∧
      (s.release c.slot).2.Threads (before ++ after) := by
  have hperm : (before ++ c :: after).Perm (c :: (before ++ after)) := List.perm_middle
  have hshape : s.SameShape (s.detach c.slot) := .detach s c.slot
  have hentry := h.linked.entryAt?_detach
  have hfilled := filled?_eq_true.mpr ⟨_, hentry⟩
  have hlt := lt_size_of_filled? hfilled
  have hslots := (hperm.map Cell.slot).nodup_iff.mp h.linked.nodup
  have hkeys := (hperm.map Cell.key).nodup_iff.mp h.keys_nodup
  rw [List.map_cons, List.nodup_cons] at hslots hkeys
  simp only [Slab.release, hentry]
  refine ⟨trivial, ?_, hkeys.2, ?_, ?_, ?_, ?_⟩
  · refine h.linked.detach.congr rfl rfl ?_
    intro d hd
    refine (entryAt?_set _ hlt none d.slot).trans (if_neg ?_)
    intro heq
    exact hslots.1 (heq ▸ List.mem_map_of_mem hd)
  · intro key i
    simp only [Std.HashMap.getElem?_erase, hshape.index]
    by_cases hkey : c.key = key
    · subst hkey
      simp only [beq_self_eq_true, if_true, reduceCtorEq, false_iff]
      rintro ⟨d, hd, hdkey, -⟩
      exact hkeys.1 (hdkey ▸ List.mem_map_of_mem hd)
    · rw [if_neg (by simpa using hkey), h.indexed]
      simp [hperm.mem_iff, hkey]
  · intro i hi
    rw [filled?, filled?_set _ hlt] at hi
    split at hi
    · cases hi
    · rename_i hne
      rw [hshape.filled] at hi
      have hmem := h.occupied i hi
      rw [(hperm.map Cell.slot).mem_iff, List.map_cons, List.mem_cons] at hmem
      exact hmem.resolve_left (Ne.symm hne)
  · intro i
    rw [filled?, filled?_set _ hlt, List.mem_cons, hshape.free, h.vacant, hshape.filled]
    by_cases hi : c.slot = i
    · simp [hi]
    · simp [hi, Ne.symm hi]
  · rw [hshape.free, List.nodup_cons]
    refine ⟨?_, h.free_nodup⟩
    rw [h.vacant, ← hshape.filled, hfilled]
    decide

theorem evictLast (h : s.Threads cells) : s.evictLast.Threads cells.dropLast := by
  rcases List.eq_nil_or_concat cells with rfl | ⟨before, c, rfl⟩
  · have htail : s.tail = none := h.linked.tail
    simp only [Slab.evictLast, htail]
    exact h
  · rw [List.concat_eq_append] at h ⊢
    have htail : s.tail = some c.slot := h.linked.tail.trans (by simp [backSlot])
    simpa [Slab.evictLast, htail] using h.release.2

end Threads

/-- A slab after an entry came into a slot that held none. -/
structure Placed (s : Slab κ υ) (key : κ) (value : υ) (i : Nat) (s' : Slab κ υ) : Prop where
  index : s'.index = s.index
  head : s'.head = s.head
  tail : s'.tail = s.tail
  vacant : s.filled? i ≠ some true
  entry : s'.entryAt? i = some ⟨key, value, none, none⟩
  others : ∀ j, j ≠ i → s'.entryAt? j = s.entryAt? j ∧ s'.filled? j = s.filled? j
  free : ∀ j, j ∈ s'.free ↔ j ∈ s.free ∧ j ≠ i
  free_nodup : s'.free.Nodup

namespace Threads

variable {cells cells' before after : List (Cell κ υ)} {c : Cell κ υ}

theorem place (h : s.Threads cells) (key : κ) (value : υ) :
    s.Placed key value (s.place key value).1 (s.place key value).2 := by
  simp only [Slab.place]
  split
  · rename_i i free hfree
    have hvacant : s.filled? i = some false :=
      (h.vacant i).mp (hfree ▸ List.mem_cons_self)
    have hlt := lt_size_of_filled? hvacant
    have hnodup := h.free_nodup
    rw [hfree, List.nodup_cons] at hnodup
    refine ⟨rfl, rfl, rfl, ?_, ?_, ?_, ?_, hnodup.2⟩
    · rw [hvacant]
      exact nofun
    · exact (entryAt?_set s hlt _ i).trans (if_pos rfl)
    · intro j hj
      exact ⟨(entryAt?_set s hlt _ j).trans (if_neg (Ne.symm hj)),
        (filled?_set s hlt _ j).trans (if_neg (Ne.symm hj))⟩
    · intro j
      rw [hfree, List.mem_cons]
      constructor
      · intro hj
        refine ⟨.inr hj, ?_⟩
        rintro rfl
        exact hnodup.1 hj
      · rintro ⟨hj, hne⟩
        exact hj.resolve_left hne
  · rename_i hfree
    refine ⟨rfl, rfl, rfl, ?_, ?_, ?_, ?_, h.free_nodup⟩
    · simp [filled?]
    · simp [entryAt?]
    · intro j hj
      simp only [entryAt?, filled?, Array.getElem?_push, if_neg hj, and_self]
    · intro j
      rw [hfree]
      simp

theorem insert [LawfulBEq κ] (h : s.Threads cells) {key : κ} (hkey : key ∉ cells.map Cell.key)
    (value : υ) : ∃ i, (s.insert key value).Threads (⟨i, key, value⟩ :: cells) := by
  have hplaced := h.place key value
  refine ⟨(s.place key value).1, ?_⟩
  simp only [Slab.insert]
  generalize (s.place key value).1 = i at hplaced ⊢
  generalize (s.place key value).2 = s' at hplaced ⊢
  have hfresh : i ∉ cells.map Cell.slot := h.slot_notMem hplaced.vacant
  have hlinked : s'.Linked cells := by
    refine h.linked.congr hplaced.head hplaced.tail ?_
    intro c hc
    refine (hplaced.others c.slot ?_).1
    rintro rfl
    exact hfresh (List.mem_map_of_mem hc)
  have hshape : s'.SameShape (s'.attachFront i) := .attachFront s' i
  have hfilled := filled?_eq_true.mpr ⟨_, hplaced.entry⟩
  refine ⟨?_, ?_, ?_, ?_, ?_, ?_⟩
  · have hfront := hlinked.attachFront (c := ⟨i, key, value⟩) hfresh hplaced.entry rfl rfl
    exact hfront.congr rfl rfl fun _ _ => rfl
  · exact List.nodup_cons.mpr ⟨hkey, h.keys_nodup⟩
  · intro other j
    simp only [Std.HashMap.getElem?_insert, hshape.index, hplaced.index]
    by_cases hother : key = other
    · subst hother
      simp only [beq_self_eq_true, if_true, Option.some.injEq, List.mem_cons]
      constructor
      · rintro rfl
        exact ⟨_, .inl rfl, rfl, rfl⟩
      · rintro ⟨c, rfl | hc, hckey, hslot⟩
        · exact hslot
        · exact absurd (hckey ▸ List.mem_map_of_mem hc) hkey
    · rw [if_neg (by simpa using hother), h.indexed]
      simp [hother]
  · intro j hj
    have hj : s'.filled? j = some true := (hshape.filled j).symm.trans hj
    by_cases hji : j = i
    · simp [hji]
    · rw [(hplaced.others j hji).2] at hj
      exact List.mem_cons_of_mem _ (h.occupied j hj)
  · intro j
    have hfree : j ∈ (s'.attachFront i).free ↔ j ∈ s.free ∧ j ≠ i := by
      rw [hshape.free, hplaced.free]
    have hsame : (s'.attachFront i).filled? j = s'.filled? j := hshape.filled j
    refine hfree.trans (Iff.trans ?_ (Iff.of_eq (congrArg (· = some false) hsame)).symm)
    by_cases hji : j = i
    · simp [hji, hfilled]
    · rw [(hplaced.others j hji).2, h.vacant]
      simp [hji]
  · exact hshape.free ▸ hplaced.free_nodup

end Threads

namespace Threads

variable {cells : List (Cell κ υ)} {key : κ}

theorem exists_of_index (h : s.Threads cells) {i : Nat} (hi : s.index[key]? = some i) :
    ∃ before c after, cells = before ++ c :: after ∧ c.key = key ∧ c.slot = i := by
  obtain ⟨c, hc, hkey, hslot⟩ := (h.indexed key i).mp hi
  obtain ⟨before, after, hcells⟩ := List.append_of_mem hc
  exact ⟨before, c, after, hcells, hkey, hslot⟩

theorem notMem_of_index (h : s.Threads cells) (hnone : s.index[key]? = none) :
    key ∉ cells.map Cell.key := by
  intro hmem
  obtain ⟨c, hc, hkey⟩ := List.mem_map.mp hmem
  have hsome := (h.indexed key c.slot).mpr ⟨c, hc, hkey, rfl⟩
  exact nomatch hnone.symm.trans hsome

theorem size_eq [LawfulBEq κ] (h : s.Threads cells) : s.size = cells.length := by
  have hperm : s.index.keys.Perm (cells.map Cell.key) := by
    rw [List.perm_ext_iff_of_nodup s.index.nodup_keys h.keys_nodup]
    intro key
    rw [Std.HashMap.mem_keys, Std.HashMap.mem_iff_isSome_getElem?, Option.isSome_iff_exists,
      List.mem_map]
    constructor
    · rintro ⟨i, hi⟩
      obtain ⟨c, hc, hkey, -⟩ := (h.indexed key i).mp hi
      exact ⟨c, hc, hkey⟩
    · rintro ⟨c, hc, hkey⟩
      exact ⟨c.slot, (h.indexed key c.slot).mpr ⟨c, hc, hkey, rfl⟩⟩
  rw [size, ← Std.HashMap.length_keys, hperm.length_eq, List.length_map]

end Threads

theorem holds_empty [LawfulBEq κ] : (empty : Slab κ υ).Holds [] := by
  refine ⟨[], ⟨⟨List.nodup_nil, rfl, rfl, trivial⟩, List.nodup_nil, ?_, ?_, ?_, List.nodup_nil⟩,
    rfl⟩
  · intro key i
    simp [empty]
  · intro i hi
    exact nomatch hi
  · intro i
    simp [empty, filled?]

namespace Holds

variable [LawfulBEq κ] {l : RecencyList κ υ}

theorem size_eq (h : s.Holds l) : s.size = l.length := by
  obtain ⟨cells, hcells, rfl⟩ := h
  rw [hcells.size_eq, bindings, List.length_map]

theorem peek?_eq (h : s.Holds l) (key : κ) : s.peek? key = l.peek? key := by
  obtain ⟨cells, hcells, rfl⟩ := h
  simp only [Slab.peek?]
  cases hi : s.index[key]? with
  | none => rw [peek?_bindings_of_notMem (hcells.notMem_of_index hi)]; rfl
  | some i =>
      obtain ⟨before, c, after, rfl, rfl, rfl⟩ := hcells.exists_of_index hi
      rw [peek?_bindings hcells.keys_nodup]
      simp [hcells.linked.segment.entryAt?_eq]

theorem contains_eq (h : s.Holds l) (key : κ) : s.contains key = l.contains key := by
  rw [RecencyList.contains, ← h.peek?_eq key]
  obtain ⟨cells, hcells, rfl⟩ := h
  simp only [Slab.contains, Std.HashMap.contains_eq_isSome_getElem?, Slab.peek?]
  cases hi : s.index[key]? with
  | none => rfl
  | some i =>
      obtain ⟨before, c, after, rfl, rfl, rfl⟩ := hcells.exists_of_index hi
      simp [hcells.linked.segment.entryAt?_eq]

theorem get? (h : s.Holds l) (key : κ) :
    (s.get? key).1 = (l.get? key).1 ∧ (s.get? key).2.Holds (l.get? key).2 := by
  obtain ⟨cells, hcells, rfl⟩ := h
  simp only [Slab.get?, RecencyList.get?]
  cases hi : s.index[key]? with
  | none =>
      rw [peek?_bindings_of_notMem (hcells.notMem_of_index hi)]
      exact ⟨rfl, cells, hcells, rfl⟩
  | some i =>
      obtain ⟨before, c, after, rfl, rfl, rfl⟩ := hcells.exists_of_index hi
      have hfront := hcells.promote
      obtain ⟨e, hentry, hvalue⟩ := hfront.linked.entryAt?_of_mem List.mem_cons_self
      rw [peek?_bindings hcells.keys_nodup, without_bindings hcells.keys_nodup]
      refine ⟨?_, _, hfront, rfl⟩
      simp [hentry, hvalue]

theorem put (h : s.Holds l) {capacity : Nat} (key : κ) (value : υ) :
    (s.put capacity key value).1 = (l.put capacity key value).1 ∧
      (s.put capacity key value).2.Holds (l.put capacity key value).2 := by
  have hsize := h.size_eq
  obtain ⟨cells, hcells, rfl⟩ := h
  simp only [Slab.put, RecencyList.put]
  cases hi : s.index[key]? with
  | none =>
      have hkey := hcells.notMem_of_index hi
      rw [peek?_bindings_of_notMem hkey, ← hsize]
      refine ⟨rfl, ?_⟩
      dsimp only
      split
      · have hkey' : key ∉ cells.dropLast.map Cell.key := by
          rw [List.map_dropLast]
          exact fun hmem => hkey (List.dropLast_subset _ hmem)
        obtain ⟨i, hinserted⟩ := hcells.evictLast.insert hkey' value
        exact ⟨_, hinserted, by simp [bindings]⟩
      · obtain ⟨i, hinserted⟩ := hcells.insert hkey value
        exact ⟨_, hinserted, rfl⟩
  | some i =>
      obtain ⟨before, c, after, rfl, rfl, rfl⟩ := hcells.exists_of_index hi
      obtain ⟨hold, hreplaced⟩ := hcells.replace value
      rw [peek?_bindings hcells.keys_nodup, without_bindings hcells.keys_nodup]
      exact ⟨hold, _, hreplaced, rfl⟩

theorem remove (h : s.Holds l) (key : κ) :
    (s.remove key).1 = (l.remove key).1 ∧ (s.remove key).2.Holds (l.remove key).2 := by
  obtain ⟨cells, hcells, rfl⟩ := h
  simp only [Slab.remove, RecencyList.remove]
  cases hi : s.index[key]? with
  | none =>
      rw [peek?_bindings_of_notMem (hcells.notMem_of_index hi)]
      exact ⟨rfl, cells, hcells, rfl⟩
  | some i =>
      obtain ⟨before, c, after, rfl, rfl, rfl⟩ := hcells.exists_of_index hi
      obtain ⟨hreleased, hkept⟩ := hcells.release
      rw [peek?_bindings hcells.keys_nodup, without_bindings hcells.keys_nodup]
      exact ⟨congrArg (Option.map Prod.snd) hreleased, _, hkept, rfl⟩

end Holds

end Stencil.Slab
