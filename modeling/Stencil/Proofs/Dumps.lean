import Mathlib.Data.List.Nodup
import Stencil.Proofs.CanonicalText
import Stencil.Proofs.Entries

namespace Stencil

namespace Entries

variable {α β γ : Type}

def mapValues (f : α → β) (entries : Entries α) : Entries β :=
  entries.map fun (key, v) => (key, f v)

@[simp] theorem keys_mapValues (f : α → β) (entries : Entries α) :
    (entries.mapValues f).map Prod.fst = entries.map Prod.fst :=
  List.map_map

@[simp] theorem mapValues_mapValues (g : β → γ) (f : α → β) (entries : Entries α) :
    (entries.mapValues f).mapValues g = entries.mapValues fun v => g (f v) :=
  List.map_map

theorem ordered_mapValues (f : α → β) (entries : Entries α) :
    (entries.mapValues f).ordered = entries.ordered.mapValues f := by
  refine (List.map_mergeSort ?_).symm
  exact fun _ _ _ _ => rfl

theorem ordered_perm (entries : Entries α) : entries.ordered.Perm entries :=
  List.mergeSort_perm _ _

theorem pairwise_ordered (entries : Entries α) :
    entries.ordered.Pairwise fun a b => a.1 ≤ b.1 := by
  let before (a b : String × α) : Bool := decide (a.1 ≤ b.1)
  have htrans : ∀ a b c, before a b = true → before b c = true → before a c = true :=
    fun a b c hab hbc =>
      decide_eq_true (String.le_trans (of_decide_eq_true hab) (of_decide_eq_true hbc))
  have htotal : ∀ a b, (before a b || before b a) = true := by
    intro a b
    simpa [before] using String.le_total a.1 b.1
  exact (List.pairwise_mergeSort htrans htotal entries).imp of_decide_eq_true

section Distinct

variable {entries entries' : Entries α} (h : (entries.map Prod.fst).Nodup)

include h

theorem find?_eq_some_iff {key : String} {v : α} :
    entries.find? key = some v ↔ (key, v) ∈ entries := by
  induction entries with
  | nil => exact ⟨nofun, nofun⟩
  | cons entry rest ih =>
      obtain ⟨other, w⟩ := entry
      obtain ⟨hnotMem, hrest⟩ := List.nodup_cons.mp h
      rw [find?_cons, List.mem_cons, Prod.mk.injEq]
      split
      · rename_i heq
        subst heq
        have hnone : (key, v) ∉ rest := fun hmem => hnotMem (List.mem_map.mpr ⟨_, hmem, rfl⟩)
        simp [hnone, eq_comm]
      · rename_i hne
        simp [hne, ih hrest]

theorem ordered_eq_of_perm (hperm : entries.Perm entries') :
    entries.ordered = entries'.ordered := by
  have hmem : ∀ {e}, e ∈ entries'.ordered → e ∈ entries := fun he =>
    hperm.mem_iff.mpr ((ordered_perm entries').mem_iff.mp he)
  refine List.Perm.eq_of_pairwise (fun a b ha hb hab hba => ?_) (pairwise_ordered entries)
    (pairwise_ordered entries') ?_
  · exact List.inj_on_of_nodup_map h ((ordered_perm entries).mem_iff.mp ha) (hmem hb)
      (String.le_antisymm hab hba)
  · exact (ordered_perm entries).trans (hperm.trans (ordered_perm entries').symm)

end Distinct

/-- Two lists of entries with the same keys as one list with two values at each key, in the order
of the first. -/
structure Beside (entries entries' : Entries α) (both : Entries (α × α)) : Prop where
  left : entries = both.mapValues Prod.fst
  right : entries'.Perm (both.mapValues Prod.snd)
  mem_iff (key : String) (v w : α) :
    (key, v, w) ∈ both ↔ entries.find? key = some v ∧ entries'.find? key = some w

theorem exists_beside {entries entries' : Entries α} (h : (entries.map Prod.fst).Nodup)
    (h' : (entries'.map Prod.fst).Nodup)
    (hkeys : ∀ key, (entries.find? key).isSome = (entries'.find? key).isSome) :
    ∃ both, Beside entries entries' both := by
  let both : Entries (α × α) := entries.map fun e => (e.1, e.2, (entries'.find? e.1).getD e.2)
  have hmem (key : String) (v w : α) :
      (key, v, w) ∈ both ↔ entries.find? key = some v ∧ entries'.find? key = some w := by
    have hsame := hkeys key
    simp only [both, List.mem_map, Prod.mk.injEq, find?_eq_some_iff h]
    constructor
    · rintro ⟨⟨_, _⟩, hv, rfl, rfl, rfl⟩
      rw [(find?_eq_some_iff h).mpr hv] at hsame
      obtain ⟨w, hw⟩ := Option.isSome_iff_exists.mp hsame.symm
      exact ⟨hv, by simp [hw]⟩
    · rintro ⟨hv, hw⟩
      exact ⟨(key, v), hv, rfl, rfl, by simp [hw]⟩
  have hleft : entries = both.mapValues Prod.fst := by
    simp [both, mapValues, Function.comp_def]
  refine ⟨both, hleft, ?_, hmem⟩
  rw [List.perm_ext_iff_of_nodup (.of_map _ h')
    (.of_map Prod.fst (by simpa [both, mapValues, Function.comp_def] using h))]
  intro (key, w)
  simp only [mapValues, List.mem_map, ← find?_eq_some_iff h']
  constructor
  · intro hw
    obtain ⟨v, hv⟩ := Option.isSome_iff_exists.mp ((hkeys key).trans (hw ▸ rfl))
    exact ⟨(key, v, w), (hmem key v w).mpr ⟨hv, hw⟩, rfl⟩
  · rintro ⟨⟨_, v, _⟩, hboth, heq⟩
    obtain ⟨rfl, rfl⟩ := Prod.mk.inj heq
    exact ((hmem _ _ _).mp hboth).2

end Entries

namespace Text

theorem length_intercalate (separator : String) (parts : List String) :
    (separator.intercalate parts).length =
      (parts.map String.length).foldr (· + ·) 0 + separator.length * (parts.length - 1) := by
  induction parts with
  | nil => simp
  | cons part rest ih =>
      cases rest with
      | nil => simp
      | cons next rest =>
          rw [String.intercalate_cons_cons, String.length_append, String.length_append, ih]
          simp only [List.map_cons, List.foldr_cons, List.length_cons, Nat.add_sub_cancel,
            Nat.mul_add]
          omega

theorem length_intercalate_of_perm (separator : String) {parts parts' : List String}
    (h : (parts.map String.length).Perm (parts'.map String.length)) :
    (separator.intercalate parts).length = (separator.intercalate parts').length := by
  have hlength : parts.length = parts'.length := by simpa using h.length_eq
  have hsum := h.foldr_eq' (fun a _ b _ n => Nat.add_left_comm b a n) 0
  rw [length_intercalate, length_intercalate, hsum, hlength]

theorem append_inj {a b a' b' : String} (h : a ++ b = a' ++ b') (hlength : a.length = a'.length) :
    a = a' ∧ b = b' := by
  have hlist := congrArg String.toList h
  rw [String.toList_append, String.toList_append] at hlist
  obtain ⟨ha, hb⟩ := List.append_inj hlist hlength
  exact ⟨String.toList_injective ha, String.toList_injective hb⟩

theorem intercalate_map_inj {α : Type} (separator : String) (f g : α → String) {l : List α}
    (hlength : ∀ x ∈ l, (f x).length = (g x).length) :
    separator.intercalate (l.map f) = separator.intercalate (l.map g) ↔ ∀ x ∈ l, f x = g x := by
  refine ⟨fun h => ?_, fun h => by rw [List.map_congr_left h]⟩
  induction l with
  | nil => exact nofun
  | cons x rest ih =>
      obtain ⟨hx, hrest⟩ := List.forall_mem_cons.mp hlength
      cases rest with
      | nil => simpa using h
      | cons y rest =>
          simp only [List.map_cons, String.intercalate_cons_cons] at h ih
          obtain ⟨hfirst, hnext⟩ := append_inj h (by simp [String.length_append, hx])
          exact List.forall_mem_cons.mpr ⟨(append_inj hfirst hx).1, ih hrest hnext⟩

end Text

namespace Value

/-- The second value is the first one with the entries of any maps in it, at any depth, in another
order. -/
inductive Reorders : Value → Value → Prop
  | refl (v : Value) : Reorders v v
  | list {items items' : List Value} (hlength : items.length = items'.length)
      (h : ∀ v w, (v, w) ∈ items.zip items' → Reorders v w) :
      Reorders (.list items) (.list items')
  | map {entries entries' : Entries Value} (hdistinct : (entries.map Prod.fst).Nodup)
      (hdistinct' : (entries'.map Prod.fst).Nodup)
      (hkeys : ∀ key, (entries.find? key).isSome = (entries'.find? key).isSome)
      (h : ∀ key v w, entries.find? key = some v → entries'.find? key = some w →
        Reorders v w) :
      Reorders (.map entries) (.map entries')

def at? : List String → Value → Option Value
  | [], v => some v
  | key :: path, .map entries => (Entries.find? key entries).bind (at? path)
  | _ :: _, _ => none

theorem dumpedEntries_eq_mapValues (entries : Entries Value) :
    dumpedEntries entries = entries.mapValues dumped :=
  dumpedEntries_eq_map entries

/-- Lists at the ends of the same path have the same text. -/
def ListsAgree (v w : Value) : Prop :=
  ∀ path items items', v.at? path = some (.list items) → w.at? path = some (.list items') →
    canonical (.list items) = canonical (.list items')

theorem listsAgree_map {entries entries' : Entries Value} :
    ListsAgree (.map entries) (.map entries') ↔
      ∀ key v w, Entries.find? key entries = some v → Entries.find? key entries' = some w →
        ListsAgree v w := by
  constructor
  · intro h key v w hv hw path items items' hitems hitems'
    refine h (key :: path) items items' ?_ ?_
    · rwa [at?, hv]
    · rwa [at?, hw]
  · intro h path items items' hitems hitems'
    cases path with
    | nil => cases hitems
    | cons key path =>
        obtain ⟨v, hv, hitems⟩ := Option.bind_eq_some_iff.mp hitems
        obtain ⟨w, hw, hitems'⟩ := Option.bind_eq_some_iff.mp hitems'
        exact h key v w hv hw path items items' hitems hitems'

def dumpedEntry (entry : String × String) : String :=
  entry.1 ++ "=<" ++ entry.2 ++ ">"

theorem dumpOf_of_ne_nil {shown : Entries String} (h : shown ≠ []) :
    dumpOf shown =
      shown.length.repr ++ ":" ++ " ".intercalate (shown.ordered.map dumpedEntry) := by
  rw [dumpOf, if_neg (by simpa using h)]
  rfl

theorem dumpOf_eq_of_perm {shown shown' : Entries String} (h : (shown.map Prod.fst).Nodup)
    (hperm : shown.Perm shown') : dumpOf shown = dumpOf shown' := by
  rw [dumpOf, dumpOf, Entries.ordered_eq_of_perm h hperm, hperm.length_eq, hperm.isEmpty_eq]

theorem length_dumpOf_of_perm {shown shown' : Entries String}
    (h : (shown.map fun e => (dumpedEntry e).length).Perm
      (shown'.map fun e => (dumpedEntry e).length)) :
    (dumpOf shown).length = (dumpOf shown').length := by
  have hlength : shown.length = shown'.length := by simpa using h.length_eq
  by_cases hnil : shown = []
  · subst hnil
    rw [List.eq_nil_of_length_eq_zero hlength.symm]
  · have hnil' : shown' ≠ [] := by
      rintro rfl
      exact hnil (List.eq_nil_of_length_eq_zero hlength)
    have hordered (shown : Entries String) :
        ((shown.ordered.map dumpedEntry).map String.length).Perm
          (shown.map fun e => (dumpedEntry e).length) := by
      rw [List.map_map]
      exact shown.ordered_perm.map _
    have hperm := (hordered shown).trans (h.trans (hordered shown').symm)
    rw [dumpOf_of_ne_nil hnil, dumpOf_of_ne_nil hnil', String.length_append, String.length_append,
      hlength, Text.length_intercalate_of_perm " " hperm]
    simp only [String.length_append]

/-- Where the texts at each key are of one length, the dump shows every one of them. -/
theorem dumpOf_mapValues_inj {α : Type} {entries : Entries α} (f g : α → String)
    (hlength : ∀ e ∈ entries, (f e.2).length = (g e.2).length) :
    dumpOf (entries.mapValues f) = dumpOf (entries.mapValues g) ↔
      ∀ e ∈ entries, f e.2 = g e.2 := by
  by_cases hnil : entries = []
  · subst hnil
    exact ⟨fun _ => nofun, fun _ => rfl⟩
  · have hne (f : α → String) : entries.mapValues f ≠ [] := by simpa [Entries.mapValues] using hnil
    have hparts (f : α → String) : (entries.mapValues f).ordered.map dumpedEntry =
        entries.ordered.map fun e => dumpedEntry (e.1, f e.2) := by
      rw [Entries.ordered_mapValues]
      exact List.map_map
    have hcount (f : α → String) : (entries.mapValues f).length = entries.length := by
      simp [Entries.mapValues]
    have hlonger : ∀ e ∈ entries.ordered,
        (dumpedEntry (e.1, f e.2)).length = (dumpedEntry (e.1, g e.2)).length := fun e he => by
      simp only [dumpedEntry, String.length_append,
        hlength e (entries.ordered_perm.mem_iff.mp he)]
    rw [dumpOf_of_ne_nil (hne f), dumpOf_of_ne_nil (hne g), hparts f, hparts g, hcount f, hcount g,
      String.append_right_inj, Text.intercalate_map_inj _ _ _ hlonger]
    simp only [dumpedEntry, String.append_left_inj, String.append_right_inj,
      entries.ordered_perm.mem_iff]

namespace Reorders

theorem length_canonical {v w : Value} (h : Reorders v w) :
    v.canonical.length = w.canonical.length := by
  induction h with
  | refl v => rfl
  | @list items items' hlength h ih =>
      have hparts : (items.map canonical).map String.length =
          (items'.map canonical).map String.length := by
        simp only [List.map_map]
        conv_lhs => rw [← List.map_fst_zip (Nat.le_of_eq hlength)]
        conv_rhs => rw [← List.map_snd_zip (Nat.le_of_eq hlength.symm)]
        simp only [List.map_map]
        exact List.map_congr_left fun pair hpair => ih pair.1 pair.2 hpair
      simp only [canonical, canonicalItems_eq_map, String.length_append,
        Text.length_intercalate_of_perm ", " (.of_eq hparts)]
  | @map entries entries' hdistinct hdistinct' hkeys h ih =>
      obtain ⟨both, hboth⟩ := Entries.exists_beside hdistinct hdistinct' hkeys
      let shown : String × Value → String := fun e => e.1 ++ "=" ++ e.2.canonical
      have hparts : ((entries.map shown).map String.length).Perm
          ((entries'.map shown).map String.length) := by
        refine .trans (.of_eq ?_) ((hboth.right.map shown).map String.length).symm
        rw [hboth.left]
        simp only [Entries.mapValues, List.map_map]
        refine List.map_congr_left fun e hmem => ?_
        obtain ⟨key, v, w⟩ := e
        obtain ⟨hv, hw⟩ := (hboth.mem_iff key v w).mp hmem
        simp only [shown, Function.comp_apply, String.length_append, ih key v w hv hw]
      simp only [canonical, canonicalEntries_eq_map, String.length_append]
      rw [Text.length_intercalate_of_perm ", " hparts]

theorem length_dumped {v w : Value} (h : Reorders v w) : (dumped v).length = (dumped w).length := by
  induction h with
  | refl v => rfl
  | list hlength h => exact (Reorders.list hlength h).length_canonical
  | @map entries entries' hdistinct hdistinct' hkeys h ih =>
      obtain ⟨both, hboth⟩ := Entries.exists_beside hdistinct hdistinct' hkeys
      refine length_dumpOf_of_perm ?_
      rw [dumpedEntries_eq_mapValues, dumpedEntries_eq_mapValues]
      have hperm := hboth.right.map fun e => (dumpedEntry (e.1, dumped e.2)).length
      simp only [Entries.mapValues, List.map_map]
      refine .trans (.of_eq ?_) hperm.symm
      rw [hboth.left]
      simp only [Entries.mapValues, List.map_map]
      refine List.map_congr_left fun e hmem => ?_
      obtain ⟨key, v, w⟩ := e
      obtain ⟨hv, hw⟩ := (hboth.mem_iff key v w).mp hmem
      simp only [Function.comp_apply, dumpedEntry, String.length_append, ih key v w hv hw]

theorem dumped_eq_iff {v w : Value} (h : Reorders v w) : dumped v = dumped w ↔ ListsAgree v w := by
  induction h with
  | refl v =>
      refine ⟨fun _ path items items' hitems hitems' => ?_, fun _ => rfl⟩
      rw [Option.some.inj (hitems.symm.trans hitems')]
  | @list items items' hlength h =>
      refine ⟨fun heq path => ?_, fun hagree => hagree [] items items' rfl rfl⟩
      cases path with
      | nil =>
          rintro _ _ ⟨⟩ ⟨⟩
          exact heq
      | cons key path => exact nofun
  | @map entries entries' hdistinct hdistinct' hkeys h ih =>
      obtain ⟨both, hboth⟩ := Entries.exists_beside hdistinct hdistinct' hkeys
      have hleft : dumpedEntries entries = both.mapValues fun pair => dumped pair.1 := by
        rw [dumpedEntries_eq_mapValues, hboth.left, Entries.mapValues_mapValues]
      have hright : dumpOf (dumpedEntries entries') =
          dumpOf (both.mapValues fun pair => dumped pair.2) := by
        have hperm := hboth.right.map fun e => (e.1, dumped e.2)
        have hboth' : (both.mapValues Prod.snd).mapValues dumped =
          both.mapValues fun pair => dumped pair.2 := Entries.mapValues_mapValues _ _ _
        rw [dumpedEntries_eq_mapValues, ← hboth']
        refine dumpOf_eq_of_perm ?_ hperm
        rwa [Entries.keys_mapValues]
      have hlength : ∀ e ∈ both, (dumped e.2.1).length = (dumped e.2.2).length := by
        rintro ⟨key, v, w⟩ hmem
        obtain ⟨hv, hw⟩ := (hboth.mem_iff key v w).mp hmem
        exact (h key v w hv hw).length_dumped
      rw [dumped, dumped, hleft, hright, dumpOf_mapValues_inj _ _ hlength, listsAgree_map]
      constructor
      · intro hall key v w hv hw
        exact (ih key v w hv hw).mp (hall _ ((hboth.mem_iff key v w).mpr ⟨hv, hw⟩))
      · rintro hagree ⟨key, v, w⟩ hmem
        obtain ⟨hv, hw⟩ := (hboth.mem_iff key v w).mp hmem
        exact (ih key v w hv hw).mpr (hagree key v w hv hw)

end Reorders

/-- Two maps that are equal up to the order of the entries of maps are dumped alike exactly when the
lists that keys lead to in one and in the other have the same texts. -/
theorem dump_eq_iff_listsAgree {entries entries' : Entries Value}
    (h : Reorders (.map entries) (.map entries')) :
    dump entries = dump entries' ↔ ListsAgree (.map entries) (.map entries') :=
  h.dumped_eq_iff

section Swapped

def ascending : Value :=
  .map [("a", .text "1"), ("b", .text "2")]

def descending : Value :=
  .map [("b", .text "2"), ("a", .text "1")]

namespace Reorders

theorem descending_of_ascending : Reorders ascending descending := by
  refine .map (by decide) (by decide) (fun key => ?_) (fun key v w hv hw => ?_)
  · simp only [Entries.find?_cons]
    split_ifs <;> rfl
  · simp only [Entries.find?_cons] at hv hw
    split_ifs at hv hw <;> simp_all [Reorders.refl]

theorem entry {v w : Value} (h : Reorders v w) (key : String) :
    Reorders (.map [(key, v)]) (.map [(key, w)]) := by
  refine .map (List.nodup_singleton key) (List.nodup_singleton key) (fun other => ?_)
    (fun other v' w' hv hw => ?_)
  · simp only [Entries.find?_cons]
    split_ifs <;> rfl
  · simp only [Entries.find?_cons] at hv hw
    split_ifs at hv hw
    · cases hv
      cases hw
      exact h
    · cases hv

theorem item {v w : Value} (h : Reorders v w) : Reorders (.list [v]) (.list [w]) := by
  refine .list rfl fun v' w' hmem => ?_
  obtain ⟨rfl, rfl⟩ := Prod.mk.inj (List.mem_singleton.mp hmem)
  exact h

end Reorders

theorem listsAgree_ascending_descending : ListsAgree ascending descending := by
  refine listsAgree_map.mpr fun key v w hv _ path items _ hitems _ => ?_
  simp only [Entries.find?_cons] at hv
  split_ifs at hv <;> cases hv <;> cases path <;> cases hitems

theorem dump_eq_iff_listsAgree_nested :
    Reorders (.map [("k", ascending)]) (.map [("k", descending)]) ∧
      dump [("k", ascending)] = dump [("k", descending)] := by
  have hreorders := Reorders.descending_of_ascending.entry "k"
  refine ⟨hreorders, (dump_eq_iff_listsAgree hreorders).mpr (listsAgree_map.mpr ?_)⟩
  intro key v w hv hw
  simp only [Entries.find?_cons] at hv hw
  split_ifs at hv hw
  · cases hv
    cases hw
    exact listsAgree_ascending_descending
  · cases hv

/-- The list is dumped as its text, in which the map keeps its order. -/
theorem dump_keeps_order_in_list :
    Reorders (.map [("k", .list [ascending])]) (.map [("k", .list [descending])]) ∧
      dump [("k", .list [ascending])] = "1:k=<[\x7ba=1, b=2\x7d]>" ∧
      dump [("k", .list [descending])] = "1:k=<[\x7bb=2, a=1\x7d]>" :=
  ⟨Reorders.descending_of_ascending.item.entry "k", by decide +kernel, by decide +kernel⟩

end Swapped

end Value

end Stencil
