import Stencil.Entries

namespace Stencil.Entries

variable {α : Type}

theorem find?_cons (name key : String) (value : α) (rest : Entries α) :
    find? name ((key, value) :: rest) = if name = key then some value else rest.find? name := by
  simp only [find?, List.lookup_cons]
  by_cases h : name = key
  · simp [h]
  · simp [h, beq_eq_false_iff_ne.mpr h]

theorem find?_put (name other : String) (value : α) (entries : Entries α) :
    (entries.put name value).find? other =
      if other = name then some value else entries.find? other := by
  induction entries with
  | nil => exact find?_cons other name value []
  | cons entry rest ih =>
      obtain ⟨key, old⟩ := entry
      simp only [put, beq_iff_eq]
      split
      · rename_i hkey
        subst hkey
        simp only [find?_cons]
        split <;> rfl
      · rename_i hkey
        simp only [find?_cons, ih]
        by_cases hother : other = key
        · subst hother
          simp [hkey]
        · simp [hother]

theorem find?_putOrdered (name other : String) (value : α) (entries : Entries α) :
    (entries.putOrdered name value).find? other =
      if other = name then some value else entries.find? other := by
  induction entries with
  | nil => exact find?_cons other name value []
  | cons entry rest ih =>
      obtain ⟨key, old⟩ := entry
      simp only [putOrdered, beq_iff_eq]
      split
      · rename_i hkey
        subst hkey
        simp only [find?_cons]
        split <;> rfl
      · rename_i hkey
        split
        · exact find?_cons other name value _
        · simp only [find?_cons, ih]
          by_cases hother : other = key
          · subst hother
            simp [hkey]
          · simp [hother]

theorem mem_of_find? {name : String} {entries : Entries α} {value : α}
    (h : entries.find? name = some value) : (name, value) ∈ entries := by
  induction entries with
  | nil => cases h
  | cons entry rest ih =>
      rw [find?_cons] at h
      split at h
      · rename_i hname
        cases h
        exact hname ▸ List.mem_cons_self ..
      · exact List.mem_cons_of_mem _ (ih h)

theorem forall_mem_put {P : α → Prop} {name : String} {value : α} {entries : Entries α}
    (hvalue : P value) (h : ∀ entry ∈ entries, P entry.2) :
    ∀ entry ∈ entries.put name value, P entry.2 := by
  induction entries with
  | nil => exact List.forall_mem_singleton.mpr hvalue
  | cons entry rest ih =>
      obtain ⟨hentry, hrest⟩ := List.forall_mem_cons.mp h
      rw [put]
      split
      · exact List.forall_mem_cons.mpr ⟨hvalue, hrest⟩
      · exact List.forall_mem_cons.mpr ⟨hentry, ih hrest⟩

theorem put_of_not_mem {name : String} {entries : Entries α}
    (h : name ∉ entries.map Prod.fst) (value : α) :
    entries.put name value = entries ++ [(name, value)] := by
  induction entries with
  | nil => rfl
  | cons entry rest ih =>
      obtain ⟨key, old⟩ := entry
      simp only [List.map_cons, List.mem_cons, not_or] at h
      rw [put, if_neg (by simpa using Ne.symm h.1), ih h.2]
      rfl

end Stencil.Entries
