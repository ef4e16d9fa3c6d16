import Mathlib.Data.Set.Card
import GpuCodegen.Proofs.SweepInvariant

/-! What a register map tells about its past. After any changes a register is where its latest insertion
put it, and the index names for each offset the register inserted there last, as long as that one stayed.
Several registers may sit at one offset: whoever comes later takes the entry over, and when an earlier one
leaves, the entry stays. -/

namespace GpuCodegen.RegisterMap

/-- A change of a register map. -/
inductive Change where
  | insert (r : VReg) (offset : UInt32)
  | erase (r : VReg)
  | clear
  deriving DecidableEq, Repr

namespace Change

/-- Insertions are at real offsets. -/
def IsReal : Change → Prop
  | insert _ offset => offset ≠ unmapped
  | _ => True

/-- The change maps a register anew or not at all. -/
def Moves (r : VReg) : Change → Prop
  | insert other _ => other = r
  | erase other => other = r
  | clear => True

/-- The change maps some register to an offset. -/
def Claims (offset : UInt32) : Change → Prop
  | insert _ other => other = offset
  | _ => False

instance : DecidablePred IsReal
  | insert _ offset => inferInstanceAs (Decidable (offset ≠ unmapped))
  | erase _ => .isTrue trivial
  | clear => .isTrue trivial

end Change

/-- The map after a change. -/
def apply (m : RegisterMap) : Change → RegisterMap
  | .insert r offset => m.insert r offset
  | .erase r => m.erase r
  | .clear => m.clear

/-- The map after several changes. -/
def applyAll (m : RegisterMap) (changes : List Change) : RegisterMap := changes.foldl apply m

/-- A change was made, and none of a kind after it. -/
def Latest (kind : Change → Prop) (c : Change) (changes : List Change) : Prop :=
  ∃ before after, changes = before ++ c :: after ∧ ∀ d ∈ after, ¬ kind d

/-- The latest insertion of a register was at an offset, and neither its removal nor a clearing followed. -/
def LeftAt (changes : List Change) (r : VReg) (offset : UInt32) : Prop :=
  Latest (Change.Moves r) (.insert r offset) changes

/-- The latest insertion at an offset was that of a register, which has not been removed or put elsewhere
since, nor the map cleared. -/
def Occupies (changes : List Change) (r : VReg) (offset : UInt32) : Prop :=
  Latest (fun c => c.Claims offset ∨ c.Moves r) (.insert r offset) changes

theorem latest_nil {kind : Change → Prop} {c : Change} : ¬ Latest kind c [] := by
  rintro ⟨before, after, split, -⟩
  cases before <;> cases split

theorem latest_append {kind : Change → Prop} {c d : Change} {changes : List Change} :
    Latest kind c (changes ++ [d]) ↔ d = c ∨ ¬ kind d ∧ Latest kind c changes := by
  constructor
  · rintro ⟨before, after, split, later⟩
    rcases List.eq_nil_or_concat after with rfl | ⟨rest, last, rfl⟩
    · exact .inl (List.cons.inj (List.append_inj' split rfl).2).1
    · rw [List.concat_eq_append, ← List.cons_append, ← List.append_assoc] at split
      obtain ⟨same, single⟩ := List.append_inj' split rfl
      cases single
      refine .inr ⟨later d (by simp), before, rest, same, fun x member => later x (by simp [member])⟩
  · rintro (rfl | ⟨other, before, after, rfl, later⟩)
    · exact ⟨changes, [], rfl, nofun⟩
    · refine ⟨before, after ++ [d], by simp, fun x member => ?_⟩
      rcases List.mem_append.mp member with old | new
      · exact later x old
      · rw [List.mem_singleton.mp new]
        exact other

theorem applyAll_append (m : RegisterMap) (changes : List Change) (c : Change) :
    m.applyAll (changes ++ [c]) = (m.applyAll changes).apply c := by
  simp [applyAll]

/-! ## Registers -/

theorem get_clear (m : RegisterMap) (r : VReg) : m.clear.get r = unmapped := rfl

theorem contains_iff {m : RegisterMap} {r : VReg} : m.contains r = true ↔ m.get r ≠ unmapped := by
  simp [contains]

/-- What a change does to the offset of a register. -/
theorem get_apply {m : RegisterMap} {c : Change} {r : VReg} :
    (¬ c.Moves r ∧ (m.apply c).get r = m.get r) ∨ (∃ offset, c = .insert r offset ∧ (m.apply c).get r = offset) ∨
      (c.Moves r ∧ (∀ offset, c ≠ .insert r offset) ∧ (m.apply c).get r = unmapped) := by
  cases c with
  | insert other offset =>
    by_cases same : other = r
    · subst same
      exact .inr (.inl ⟨offset, rfl, get_insert_self m other offset⟩)
    · exact .inl ⟨same, get_insert_of_ne m (Ne.symm same) offset⟩
  | erase other =>
    by_cases same : other = r
    · subst same
      exact .inr (.inr ⟨rfl, nofun, get_erase_self m other⟩)
    · exact .inl ⟨same, get_erase_of_ne m (Ne.symm same)⟩
  | clear => exact .inr (.inr ⟨trivial, nofun, get_clear m r⟩)

/-- A register is where its latest insertion put it, if the map had it nowhere before. -/
theorem get_applyAll {m : RegisterMap} (empty : ∀ r, m.get r = unmapped) (changes : List Change) (r : VReg) :
    (∀ offset, LeftAt changes r offset → (m.applyAll changes).get r = offset) ∧
      ((∀ offset, ¬ LeftAt changes r offset) → (m.applyAll changes).get r = unmapped) := by
  induction changes using List.reverseRecOn with
  | nil => exact ⟨fun offset left => absurd left latest_nil, fun _ => empty r⟩
  | append_singleton changes c ih =>
    unfold LeftAt at ih ⊢
    simp only [applyAll_append, latest_append]
    rcases get_apply (m := m.applyAll changes) (c := c) (r := r) with ⟨kept, same⟩ | ⟨offset, rfl, here⟩ |
      ⟨moved, other, gone⟩
    · have notHere (offset : UInt32) : c ≠ .insert r offset := by
        rintro rfl
        exact kept rfl
      simpa only [notHere, kept, same, false_or, not_false_eq_true, true_and] using ih
    · refine ⟨fun offset' left => ?_, fun nowhere => absurd (.inl rfl) (nowhere offset)⟩
      rcases left with same | ⟨kept, -⟩
      · rw [here]
        exact (Change.insert.inj same).2
      · exact absurd rfl kept
    · refine ⟨fun offset left => ?_, fun _ => gone⟩
      rcases left with same | ⟨kept, -⟩
      · exact absurd same (other offset)
      · exact absurd moved kept

/-! ## How many -/

instance : Finite VReg :=
  Finite.of_injective (fun r : VReg => (⟨r.number.toNat, r.number.toNat_lt⟩ : Fin (2 ^ 32))) fun a b same => by
    cases a
    cases b
    rw [VReg.mk.injEq, ← UInt32.toNat_inj]
    exact Fin.val_congr same

/-- The registers with an offset. -/
def mapped (m : RegisterMap) : Set VReg := {r | m.get r ≠ unmapped}

/-- The map knows how many registers it has, and addresses all of them. -/
structure Sized (m : RegisterMap) : Prop where
  counted : m.count = m.mapped.ncard
  addressed : ∀ r ∈ m.mapped, r.number.toNat < m.capacity

theorem mapped_insert (m : RegisterMap) (r : VReg) {offset : UInt32} (real : offset ≠ unmapped) :
    (m.insert r offset).mapped = Insert.insert r m.mapped := by
  ext other
  by_cases same : other = r
  · subst same
    simp [mapped, get_insert_self, real]
  · simp [mapped, get_insert_of_ne m same, same]

theorem mapped_erase (m : RegisterMap) (r : VReg) : (m.erase r).mapped = m.mapped \ {r} := by
  ext other
  by_cases same : other = r
  · subst same
    simp [mapped, get_erase_self]
  · simp [mapped, get_erase_of_ne m same, same]

theorem mapped_clear (m : RegisterMap) : m.clear.mapped = ∅ :=
  Set.eq_empty_iff_forall_notMem.mpr fun _ member => member rfl

theorem lt_grown (capacity index : Nat) : index < grown capacity index ∧ capacity ≤ grown capacity index := by
  unfold grown
  split <;> omega

theorem Sized.insert {m : RegisterMap} (sized : Sized m) (r : VReg) {offset : UInt32} (real : offset ≠ unmapped) :
    Sized (m.insert r offset) := by
  obtain ⟨reached, kept⟩ := lt_grown m.capacity r.number.toNat
  refine ⟨?_, ?_⟩
  · rw [mapped_insert m r real]
    change (if m.contains r then m.count else m.count + 1) = _
    split
    · rename_i already
      rw [Set.insert_eq_of_mem (contains_iff.mp already), sized.counted]
    · rename_i new
      rw [Set.ncard_insert_of_notMem (fun already => new (contains_iff.mpr already)), sized.counted]
  · intro other member
    rw [mapped_insert m r real] at member
    change _ < grown m.capacity r.number.toNat
    rcases member with rfl | old
    · exact reached
    · exact Nat.lt_of_lt_of_le (sized.addressed other old) kept

theorem Sized.erase {m : RegisterMap} (sized : Sized m) (r : VReg) : Sized (m.erase r) := by
  have gone := mapped_erase m r
  unfold RegisterMap.erase at gone ⊢
  split
  · rename_i already
    rw [if_pos already] at gone
    refine ⟨?_, ?_⟩
    · rw [gone, Set.ncard_sdiff_singleton_of_mem (contains_iff.mp already), ← sized.counted]
    · rw [gone]
      exact fun other member => sized.addressed other member.1
  · exact sized

theorem Sized.clear {m : RegisterMap} : Sized m.clear := by
  refine ⟨?_, ?_⟩ <;> rw [mapped_clear]
  · exact (Set.ncard_empty VReg).symm
  · exact fun _ => False.elim

theorem Sized.apply {m : RegisterMap} (sized : Sized m) {c : Change} (real : c.IsReal) : Sized (m.apply c) := by
  cases c with
  | insert r offset => exact sized.insert r real
  | erase r => exact sized.erase r
  | clear => exact .clear

theorem Sized.applyAll {m : RegisterMap} (sized : Sized m) {changes : List Change} (real : ∀ c ∈ changes, c.IsReal) :
    Sized (m.applyAll changes) := by
  induction changes generalizing m with
  | nil => exact sized
  | cons c rest ih => exact ih (sized.apply (real c (by simp))) fun d member => real d (by simp [member])

theorem sized_ofCapacity (n : Int) : Sized (ofCapacity n) := by
  have none : (ofCapacity n).mapped = ∅ := Set.eq_empty_iff_forall_notMem.mpr fun _ member => member rfl
  refine ⟨?_, ?_⟩ <;> rw [none]
  · exact (Set.ncard_empty VReg).symm
  · exact fun _ => False.elim

/-- A map without registers maps none. -/
theorem Sized.empty {m : RegisterMap} (sized : Sized m) (none : m.count = 0) (r : VReg) : m.get r = unmapped := by
  rw [sized.counted, Set.ncard_eq_zero] at none
  by_contra member
  exact Set.notMem_empty r (none ▸ member)

/-! ## The index -/

/-- The index is on, and each of its entries names a register that is at the entry's offset. -/
structure Indexed (m : RegisterMap) : Prop where
  on : ∃ index, m.reverse = some index ∧ index.Ordered
  agrees : ∀ offset r, m.registerAt? offset = some r → m.get r = offset ∧ offset ≠ unmapped

theorem registerAt?_of_on {m : RegisterMap} {index : OrdMap VReg} (on : m.reverse = some index) (offset : UInt32) :
    m.registerAt? offset = index.find? offset := by
  rw [registerAt?, on]
  rfl

theorem dropReverse_ordered {index : OrdMap VReg} (ordered : index.Ordered) (offset : UInt32) (r : VReg) :
    (dropReverse index offset r).Ordered := by
  unfold dropReverse
  split
  · exact OrdMap.ordered_erase ordered offset
  · exact ordered

/-- Of an index whose entries for a register are at one offset only, the ones for other registers are left. -/
theorem find?_dropReverse {index : OrdMap VReg} {old offset : UInt32} {r other : VReg}
    (single : ∀ o, index.find? o = some r → o = old) :
    (dropReverse index old r).find? offset = some other ↔ other ≠ r ∧ index.find? offset = some other := by
  unfold dropReverse
  split
  · rename_i named
    by_cases here : offset = old
    · subst here
      rw [OrdMap.find?_erase_self, named]
      simp only [reduceCtorEq, Option.some.injEq, false_iff, not_and]
      exact fun differs same => differs same.symm
    · rw [OrdMap.find?_erase_of_ne index here]
      refine ⟨fun found => ⟨?_, found⟩, And.right⟩
      rintro rfl
      exact here (single offset found)
  · rename_i unnamed
    refine ⟨fun found => ⟨?_, found⟩, And.right⟩
    rintro rfl
    exact unnamed (single offset found ▸ found)

theorem Indexed.single {m : RegisterMap} (indexed : Indexed m) {index : OrdMap VReg} (on : m.reverse = some index)
    (r : VReg) : ∀ o, index.find? o = some r → o = m.get r := by
  intro o found
  rw [← registerAt?_of_on on] at found
  exact (indexed.agrees o r found).1.symm

/-- An insertion takes its offset's entry, and the register's old entry goes. -/
theorem Indexed.registerAt?_insert {m : RegisterMap} (indexed : Indexed m) {r other : VReg} {offset o : UInt32} :
    (m.insert r offset).registerAt? o = some other ↔
      (o = offset ∧ other = r) ∨ (o ≠ offset ∧ other ≠ r ∧ m.registerAt? o = some other) := by
  obtain ⟨index, on, -⟩ := indexed.on
  have reverse : (m.insert r offset).reverse =
      some ((if m.contains r then dropReverse index (m.get r) r else index).insert offset r) := by
    simp [RegisterMap.insert, on]
  rw [registerAt?_of_on reverse, registerAt?_of_on on]
  by_cases here : o = offset
  · subst here
    rw [OrdMap.find?_insert_self, Option.some.injEq]
    simp only [true_and, ne_eq, not_true_eq_false, false_and, or_false]
    exact eq_comm
  · rw [OrdMap.find?_insert_of_ne _ here]
    simp only [here, false_and, ne_eq, not_false_eq_true, true_and, false_or]
    split
    · exact find?_dropReverse (indexed.single on r)
    · rename_i unknown
      refine ⟨fun found => ⟨?_, found⟩, And.right⟩
      rintro rfl
      rw [← registerAt?_of_on on] at found
      obtain ⟨at_, real⟩ := indexed.agrees o _ found
      exact unknown (contains_iff.mpr (at_ ▸ real))

theorem Indexed.registerAt?_erase {m : RegisterMap} (indexed : Indexed m) {r other : VReg} {o : UInt32} :
    (m.erase r).registerAt? o = some other ↔ other ≠ r ∧ m.registerAt? o = some other := by
  obtain ⟨index, on, -⟩ := indexed.on
  unfold RegisterMap.erase
  split
  · have reverse : m.reverse.map (fun index => dropReverse index (m.get r) r) =
        some (dropReverse index (m.get r) r) := by simp [on]
    rw [registerAt?_of_on reverse, registerAt?_of_on on]
    exact find?_dropReverse (indexed.single on r)
  · rename_i unknown
    refine ⟨fun found => ⟨?_, found⟩, And.right⟩
    rintro rfl
    obtain ⟨at_, real⟩ := indexed.agrees o _ found
    exact unknown (contains_iff.mpr (at_ ▸ real))

theorem Indexed.registerAt?_clear {m : RegisterMap} (indexed : Indexed m) (o : UInt32) :
    m.clear.registerAt? o = none := by
  obtain ⟨index, on, -⟩ := indexed.on
  have reverse : m.clear.reverse = some .empty := by simp [RegisterMap.clear, on]
  rw [registerAt?_of_on reverse, OrdMap.find?_empty]

/-- Which register an offset's entry names after a change. -/
theorem Indexed.registerAt?_apply {m : RegisterMap} (indexed : Indexed m) {c : Change} {r : VReg} {offset : UInt32} :
    (m.apply c).registerAt? offset = some r ↔
      c = .insert r offset ∨ ¬ (c.Claims offset ∨ c.Moves r) ∧ m.registerAt? offset = some r := by
  cases c with
  | insert other o =>
    change (m.insert other o).registerAt? offset = some r ↔ _
    rw [indexed.registerAt?_insert]
    simp only [Change.insert.injEq, Change.Claims, Change.Moves, not_or, eq_comm (a := offset), eq_comm (a := r), ne_eq]
    tauto
  | erase other =>
    change (m.erase other).registerAt? offset = some r ↔ _
    rw [indexed.registerAt?_erase]
    simp only [Change.Claims, Change.Moves, reduceCtorEq, false_or, eq_comm (a := r), ne_eq]
  | clear =>
    change m.clear.registerAt? offset = some r ↔ _
    simp [indexed.registerAt?_clear, Change.Moves]

theorem Indexed.apply {m : RegisterMap} (indexed : Indexed m) {c : Change} (real : c.IsReal) : Indexed (m.apply c) := by
  obtain ⟨index, on, ordered⟩ := indexed.on
  refine ⟨?_, ?_⟩
  · cases c with
    | insert r offset =>
      refine ⟨(if m.contains r then dropReverse index (m.get r) r else index).insert offset r,
        by simp [RegisterMap.apply, RegisterMap.insert, on], OrdMap.ordered_insert ?_ offset r⟩
      split
      · exact dropReverse_ordered ordered _ _
      · exact ordered
    | erase r =>
      simp only [RegisterMap.apply, RegisterMap.erase]
      split
      · exact ⟨_, by simp [on], dropReverse_ordered ordered (m.get r) r⟩
      · exact ⟨index, on, ordered⟩
    | clear => exact ⟨.empty, by simp [RegisterMap.apply, RegisterMap.clear, on], OrdMap.ordered_empty⟩
  · intro offset r found
    rcases indexed.registerAt?_apply.mp found with rfl | ⟨still, before⟩
    · exact ⟨get_insert_self m r offset, real⟩
    · obtain ⟨at_, mapped⟩ := indexed.agrees offset r before
      refine ⟨?_, mapped⟩
      rcases get_apply (m := m) (c := c) (r := r) with ⟨-, same⟩ | ⟨o, rfl, -⟩ | ⟨moved, -⟩
      · rw [same, at_]
      · exact absurd (.inr rfl) still
      · exact absurd (.inr moved) still

/-- The index of a map that had none of its entries before is what its changes left. -/
theorem Indexed.applyAll {m : RegisterMap} (indexed : Indexed m) (empty : ∀ offset, m.registerAt? offset = none)
    {changes : List Change} (real : ∀ c ∈ changes, c.IsReal) :
    Indexed (m.applyAll changes) ∧
      ∀ offset r, (m.applyAll changes).registerAt? offset = some r ↔ Occupies changes r offset := by
  induction changes using List.reverseRecOn with
  | nil =>
    refine ⟨indexed, fun offset r => ⟨fun found => ?_, fun occupies => absurd occupies latest_nil⟩⟩
    rw [RegisterMap.applyAll, List.foldl_nil, empty] at found
    cases found
  | append_singleton changes c ih =>
    obtain ⟨before, found⟩ := ih fun d member => real d (by simp [member])
    simp only [applyAll_append]
    refine ⟨before.apply (real c (by simp)), fun offset r => ?_⟩
    unfold Occupies at found ⊢
    rw [before.registerAt?_apply, latest_append, found]

theorem mem_reverseEntries {m : RegisterMap} (on : ∃ index, m.reverse = some index ∧ index.Ordered) {offset : UInt32}
    {r : VReg} : (offset, r) ∈ m.reverseEntries ↔ m.registerAt? offset = some r := by
  obtain ⟨index, on, ordered⟩ := on
  rw [registerAt?_of_on on, OrdMap.find?_eq_some ordered, reverseEntries, on]

/-! ## Switching the index on -/

theorem get_enableReverse (m : RegisterMap) (r : VReg) : m.enableReverse.get r = m.get r := by
  unfold enableReverse
  split <;> rfl

theorem Sized.enableReverse {m : RegisterMap} (sized : Sized m) : Sized m.enableReverse := by
  obtain ⟨counted, addressed⟩ := sized
  unfold RegisterMap.enableReverse
  split <;> exact ⟨counted, addressed⟩

/-- Without registers the index has no entries. -/
theorem enableReverse_empty {m : RegisterMap} (off : m.reverse = none) (ordered : m.offsets.Ordered)
    (empty : ∀ r, m.get r = unmapped) : m.enableReverse.reverse = some .empty := by
  have pairs : m.pairs = [] := by
    rw [RegisterMap.pairs, List.map_eq_nil_iff, List.filter_eq_nil_iff]
    intro e member
    have found := (OrdMap.find?_eq_some ordered).mpr member
    have here := empty ⟨e.1⟩
    simp only [get, found, Option.getD_some] at here
    simp [here]
  rw [enableReverse, off, pairs]
  rfl

theorem apply_off {m : RegisterMap} (off : m.reverse = none) (c : Change) : (m.apply c).reverse = none := by
  cases c with
  | insert r offset => simp [RegisterMap.apply, RegisterMap.insert, off]
  | erase r =>
    simp only [RegisterMap.apply, RegisterMap.erase]
    split <;> simp [off]
  | clear => simp [RegisterMap.apply, RegisterMap.clear, off]

theorem apply_ordered {m : RegisterMap} (ordered : m.offsets.Ordered) (c : Change) : (m.apply c).offsets.Ordered := by
  cases c with
  | insert r offset => exact OrdMap.ordered_insert ordered r.number offset
  | erase r =>
    simp only [RegisterMap.apply, RegisterMap.erase]
    split
    · exact OrdMap.ordered_erase ordered r.number
    · exact ordered
  | clear => exact OrdMap.ordered_empty

theorem applyAll_off {m : RegisterMap} (off : m.reverse = none) (ordered : m.offsets.Ordered) (changes : List Change) :
    (m.applyAll changes).reverse = none ∧ (m.applyAll changes).offsets.Ordered := by
  induction changes generalizing m with
  | nil => exact ⟨off, ordered⟩
  | cons c rest ih => exact ih (apply_off off c) (apply_ordered ordered c)

/-! ## Histories -/

/-- **What a map says about its changes.** Once the index was switched on while no register was mapped, a
register is where its latest insertion put it, or nowhere if it was removed since; the map counts the
registers it maps; and the index has an entry for a register and an offset exactly when the register was
the last one to be inserted there and has stayed, so that every entry agrees with the map. The entries are
listed in order of their offsets. -/
theorem reads_history (n : Int) (earlier later : List Change) (real : ∀ c ∈ earlier ++ later, c.IsReal)
    (empty : ((ofCapacity n).applyAll earlier).count = 0) :
    let m := ((ofCapacity n).applyAll earlier).enableReverse.applyAll later
    (∀ r, (∀ offset, LeftAt later r offset → m.get r = offset) ∧
      ((∀ offset, ¬ LeftAt later r offset) → m.get r = unmapped)) ∧
    m.count = {r | m.get r ≠ unmapped}.ncard ∧
    (∀ r, m.capacity ≤ r.number.toNat → m.get r = unmapped) ∧
    (∀ offset r, m.registerAt? offset = some r ↔ Occupies later r offset) ∧
    (∀ offset r, m.registerAt? offset = some r → m.get r = offset) ∧
    (∀ offset r, (offset, r) ∈ m.reverseEntries ↔ Occupies later r offset) ∧
    m.reverseEntries.Pairwise fun a b => a.1 < b.1 := by
  intro m
  have realEarlier : ∀ c ∈ earlier, c.IsReal := fun c member => real c (List.mem_append_left _ member)
  have realLater : ∀ c ∈ later, c.IsReal := fun c member => real c (List.mem_append_right _ member)
  have counts := (sized_ofCapacity n).applyAll realEarlier
  have none := counts.empty empty
  obtain ⟨off, ordered⟩ := applyAll_off (m := ofCapacity n) rfl OrdMap.ordered_empty earlier
  have on := enableReverse_empty off ordered none
  have blank (offset : UInt32) : ((ofCapacity n).applyAll earlier).enableReverse.registerAt? offset = Option.none := by
    rw [registerAt?_of_on on, OrdMap.find?_empty]
  have start : Indexed ((ofCapacity n).applyAll earlier).enableReverse := by
    refine ⟨⟨_, on, OrdMap.ordered_empty⟩, fun offset r found => ?_⟩
    rw [blank] at found
    cases found
  have sized : Sized m := counts.enableReverse.applyAll realLater
  obtain ⟨indexed, names⟩ := start.applyAll blank realLater
  refine ⟨get_applyAll (fun r => (get_enableReverse _ r).trans (none r)) later, sized.counted, fun r past => ?_, names,
    fun offset r found => (indexed.agrees offset r found).1,
    fun offset r => (mem_reverseEntries indexed.on).trans (names offset r), ?_⟩
  · by_contra member
    exact absurd (sized.addressed r member) (Nat.not_lt.mpr past)
  · obtain ⟨index, on, sorted⟩ := indexed.on
    rw [reverseEntries, on]
    exact sorted

/-- A register is mapped and removed again before the index is switched on. Then one offset changes hands:
its first register leaves without taking the entry away, and another register leaves its own offset free. -/
theorem reads_history_takenOver :
    let earlier : List Change := [.insert ⟨5⟩ 32, .erase ⟨5⟩]
    let later : List Change := [.insert ⟨1⟩ 64, .insert ⟨2⟩ 96, .insert ⟨3⟩ 64, .erase ⟨1⟩, .insert ⟨2⟩ 128]
    let m := ((ofCapacity 0).applyAll earlier).enableReverse.applyAll later
    (∀ c ∈ earlier ++ later, c.IsReal) ∧ ((ofCapacity 0).applyAll earlier).count = 0 ∧
      m.reverseEntries = [(64, ⟨3⟩), (128, ⟨2⟩)] ∧ Occupies later ⟨3⟩ 64 ∧ (∀ r, ¬ Occupies later r 96) ∧
      m.get ⟨3⟩ = 64 ∧ m.get ⟨1⟩ = unmapped ∧ m.count = {r | m.get r ≠ unmapped}.ncard := by
  intro earlier later m
  have real : ∀ c ∈ earlier ++ later, c.IsReal := by decide
  have empty : ((ofCapacity 0).applyAll earlier).count = 0 := by decide
  obtain ⟨left, counted, -, names, agrees, lists, -⟩ := reads_history 0 earlier later real empty
  have third : m.registerAt? 64 = some ⟨3⟩ := by decide
  have free : m.registerAt? 96 = none := by decide
  refine ⟨real, empty, by decide, (names _ _).mp third, fun r occupies => ?_, agrees _ _ third, ?_, counted⟩
  · have found := (names 96 r).mpr occupies
    rw [show m.registerAt? 96 = none from free] at found
    cases found
  · decide

end GpuCodegen.RegisterMap
