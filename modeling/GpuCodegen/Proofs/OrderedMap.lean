import GpuCodegen.OrdMap

/-! Lookup, insertion and removal of the ordered maps, and what `floor?` and `ceiling?` find. -/

namespace GpuCodegen.OrdMap

variable {α : Type}

/-- Keys ascend, so every key has one entry. -/
def Ordered (m : OrdMap α) : Prop := m.entries.Pairwise fun a b => a.1 < b.1

theorem ordered_empty : (empty : OrdMap α).Ordered := List.Pairwise.nil

@[simp] theorem find?_empty (key : UInt32) : (empty : OrdMap α).find? key = none := rfl

private theorem mem_insertEntry {key : UInt32} {value : α} {entries : List (UInt32 × α)}
    {e : UInt32 × α} (ordered : entries.Pairwise fun a b => a.1 < b.1) :
    e ∈ insertEntry key value entries ↔ e = (key, value) ∨ e ∈ entries ∧ e.1 ≠ key := by
  induction entries with
  | nil => simp [insertEntry]
  | cons head rest ih =>
    obtain ⟨above, orderedRest⟩ := List.pairwise_cons.mp ordered
    unfold insertEntry
    split
    · rename_i before
      have other : ∀ x ∈ head :: rest, x.1 ≠ key := by
        intro x member same
        rcases List.mem_cons.mp member with rfl | later
        · exact UInt32.lt_irrefl _ (same ▸ before)
        · exact UInt32.lt_irrefl _ (UInt32.lt_trans before (same ▸ above x later))
      constructor
      · intro member
        rcases List.mem_cons.mp member with rfl | later
        · exact .inl rfl
        · exact .inr ⟨later, other e later⟩
      · rintro (rfl | ⟨member, -⟩)
        · exact List.mem_cons_self
        · exact List.mem_cons_of_mem _ member
    · split
      · rename_i same
        constructor
        · intro member
          rcases List.mem_cons.mp member with rfl | later
          · exact .inl rfl
          · refine .inr ⟨List.mem_cons_of_mem _ later, fun again => ?_⟩
            exact UInt32.lt_irrefl _ ((again.trans same) ▸ above e later)
        · rintro (rfl | ⟨member, differs⟩)
          · exact List.mem_cons_self
          · rcases List.mem_cons.mp member with rfl | later
            · exact absurd same.symm differs
            · exact List.mem_cons_of_mem _ later
      · rename_i differs
        rw [List.mem_cons, ih orderedRest, List.mem_cons]
        constructor
        · rintro (rfl | rfl | ⟨later, other⟩)
          · exact .inr ⟨.inl rfl, fun same => differs same.symm⟩
          · exact .inl rfl
          · exact .inr ⟨.inr later, other⟩
        · rintro (rfl | ⟨rfl | later, other⟩)
          · exact .inr (.inl rfl)
          · exact .inl rfl
          · exact .inr (.inr ⟨later, other⟩)

theorem mem_insert {m : OrdMap α} (ordered : m.Ordered) {key : UInt32} {value : α} {e : UInt32 × α} :
    e ∈ (m.insert key value).entries ↔ e = (key, value) ∨ e ∈ m.entries ∧ e.1 ≠ key :=
  mem_insertEntry ordered

theorem ordered_insert {m : OrdMap α} (ordered : m.Ordered) (key : UInt32) (value : α) :
    (m.insert key value).Ordered := by
  obtain ⟨entries⟩ := m
  change entries.Pairwise _ at ordered
  change (insertEntry key value entries).Pairwise _
  induction entries with
  | nil => simp [insertEntry]
  | cons head rest ih =>
    obtain ⟨above, orderedRest⟩ := List.pairwise_cons.mp ordered
    unfold insertEntry
    split
    · rename_i before
      refine List.pairwise_cons.mpr ⟨fun x member => ?_, ordered⟩
      rcases List.mem_cons.mp member with rfl | later
      · exact before
      · exact UInt32.lt_trans before (above x later)
    · rename_i notBefore
      split
      · rename_i same
        exact List.pairwise_cons.mpr ⟨fun x member => same ▸ above x member, orderedRest⟩
      · rename_i differs
        refine List.pairwise_cons.mpr ⟨fun x member => ?_, ih orderedRest⟩
        rcases (mem_insertEntry orderedRest).mp member with rfl | ⟨later, -⟩
        · exact UInt32.lt_of_le_of_ne (UInt32.not_lt.mp notBefore) (Ne.symm differs)
        · exact above x later

theorem mem_erase {m : OrdMap α} {key : UInt32} {e : UInt32 × α} :
    e ∈ (m.erase key).entries ↔ e ∈ m.entries ∧ e.1 ≠ key := by
  simp [erase]

theorem ordered_erase {m : OrdMap α} (ordered : m.Ordered) (key : UInt32) : (m.erase key).Ordered :=
  List.Pairwise.sublist List.filter_sublist ordered

theorem find?_eq_some {m : OrdMap α} (ordered : m.Ordered) {key : UInt32} {value : α} :
    m.find? key = some value ↔ (key, value) ∈ m.entries := by
  obtain ⟨entries⟩ := m
  change entries.Pairwise _ at ordered
  induction entries with
  | nil => simp [find?]
  | cons head rest ih =>
    obtain ⟨above, orderedRest⟩ := List.pairwise_cons.mp ordered
    by_cases here : head.1 = key
    · have absent : (key, value) ∉ rest := by
        intro later
        exact UInt32.lt_irrefl _ (here ▸ above _ later)
      have first : find? ⟨head :: rest⟩ key = some head.2 := by simp [find?, here]
      rw [first, List.mem_cons, or_iff_left absent]
      constructor
      · intro same
        exact Prod.ext here.symm (Option.some.inj same).symm
      · intro same
        rw [← same]
    · have skipped : find? ⟨head :: rest⟩ key = find? ⟨rest⟩ key := by simp [find?, here]
      rw [skipped, ih orderedRest, List.mem_cons]
      refine ⟨.inr, fun member => ?_⟩
      rcases member with rfl | later
      · exact absurd rfl here
      · exact later

@[simp] theorem find?_insert_self (m : OrdMap α) (key : UInt32) (value : α) :
    (m.insert key value).find? key = some value := by
  obtain ⟨entries⟩ := m
  change find? ⟨insertEntry key value entries⟩ key = some value
  induction entries with
  | nil => simp [insertEntry, find?]
  | cons head rest ih =>
    unfold insertEntry
    split
    · simp [find?]
    · split
      · simp [find?]
      · rename_i differs
        have other : ¬ head.1 = key := fun same => differs same.symm
        simpa [find?, other] using ih

theorem find?_insert_of_ne (m : OrdMap α) {key other : UInt32} (differs : other ≠ key) (value : α) :
    (m.insert key value).find? other = m.find? other := by
  obtain ⟨entries⟩ := m
  change find? ⟨insertEntry key value entries⟩ other = find? ⟨entries⟩ other
  have skip : ¬ key = other := fun same => differs same.symm
  induction entries with
  | nil => simp [insertEntry, find?, skip]
  | cons head rest ih =>
    unfold insertEntry
    split
    · simp [find?, skip]
    · split
      · rename_i same
        simp [find?, skip, ← same]
      · by_cases here : head.1 = other
        · simp [find?, here]
        · simpa [find?, here] using ih

@[simp] theorem find?_erase_self (m : OrdMap α) (key : UInt32) : (m.erase key).find? key = none := by
  simp [find?, erase]

theorem find?_erase_of_ne (m : OrdMap α) {key other : UInt32} (differs : other ≠ key) :
    (m.erase key).find? other = m.find? other := by
  obtain ⟨entries⟩ := m
  induction entries with
  | nil => rfl
  | cons head rest ih =>
    by_cases here : head.1 = key
    · have skip : ¬ head.1 = other := fun same => differs (same.symm.trans here)
      have skip' : ¬ key = other := fun same => differs same.symm
      simpa [find?, erase, here, skip'] using ih
    · by_cases found : head.1 = other
      · simp [find?, erase, found, differs]
      · simpa [find?, erase, here, found] using ih

theorem floor?_eq_some {m : OrdMap α} (ordered : m.Ordered) {key : UInt32} {e : UInt32 × α}
    (found : m.floor? key = some e) :
    e ∈ m.entries ∧ e.1 ≤ key ∧ ∀ x ∈ m.entries, x.1 ≤ key → x.1 ≤ e.1 := by
  unfold floor? at found
  have sorted : (m.entries.filter fun entry => entry.1 ≤ key).Pairwise fun a b => a.1 < b.1 :=
    List.Pairwise.sublist List.filter_sublist ordered
  obtain ⟨before, shape⟩ := List.getLast?_eq_some_iff.mp found
  have member : e ∈ m.entries.filter fun entry => entry.1 ≤ key := by simp [shape]
  obtain ⟨listed, below⟩ := List.mem_filter.mp member
  refine ⟨listed, by simpa using below, fun x here small => ?_⟩
  have kept : x ∈ before ++ [e] := by
    rw [← shape]
    exact List.mem_filter.mpr ⟨here, by simpa using small⟩
  rw [shape] at sorted
  rcases List.mem_append.mp kept with early | last
  · exact UInt32.le_of_lt ((List.pairwise_append.mp sorted).2.2 x early e (by simp))
  · rw [List.mem_singleton.mp last]
    exact UInt32.le_refl _

theorem floor?_eq_none {m : OrdMap α} {key : UInt32} (missing : m.floor? key = none) :
    ∀ x ∈ m.entries, key < x.1 := by
  intro x member
  have empty : (m.entries.filter fun entry => entry.1 ≤ key) = [] := List.getLast?_eq_none_iff.mp missing
  have above := List.filter_eq_nil_iff.mp empty x member
  simpa using above

theorem ceiling?_eq_some {m : OrdMap α} (ordered : m.Ordered) {key : UInt32} {e : UInt32 × α}
    (found : m.ceiling? key = some e) :
    e ∈ m.entries ∧ key ≤ e.1 ∧ ∀ x ∈ m.entries, key ≤ x.1 → e.1 ≤ x.1 := by
  unfold ceiling? at found
  obtain ⟨reached, before, after, shape, skipped⟩ := List.find?_eq_some_iff_append.mp found
  refine ⟨by simp [shape], by simpa using reached, fun x member large => ?_⟩
  unfold Ordered at ordered
  rw [shape] at member ordered
  rcases List.mem_append.mp member with early | late
  · have small := skipped x early
    simp [large] at small
  · rcases List.mem_cons.mp late with rfl | later
    · exact UInt32.le_refl _
    · exact UInt32.le_of_lt ((List.pairwise_cons.mp (List.pairwise_append.mp ordered).2.1).1 x later)

theorem ceiling?_eq_none {m : OrdMap α} {key : UInt32} (missing : m.ceiling? key = none) :
    ∀ x ∈ m.entries, x.1 < key := by
  intro x member
  have below := List.find?_eq_none.mp missing x member
  simpa using below

end GpuCodegen.OrdMap
