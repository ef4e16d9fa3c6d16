import GpuCodegen.Proofs.OrderedMap
import GpuCodegen.Registers.Liveness

/-! What live intervals say about a kernel. The walk over the instructions is described by the list of
register accesses it has seen; from it follow the intervals of whole kernels: every access of a
register lies in its interval, and nothing accesses a register inside one of its holes. -/

namespace GpuCodegen.IntervalStore

@[simp] theorem size_add (s : IntervalStore) (iv : Interval) : (s.add iv).size = s.size + 1 := by
  simp [size, add]

@[simp] theorem size_modify (s : IntervalStore) (n : Nat) (f : Interval → Interval) :
    (s.modify n f).size = s.size := by
  simp [size, modify]

@[simp] theorem get_add_self (s : IntervalStore) (iv : Interval) : (s.add iv).get s.size = iv := by
  simp [get, add, size]

theorem get_add_of_lt {s : IntervalStore} {n : Nat} (small : n < s.size) (iv : Interval) :
    (s.add iv).get n = s.get n := by
  simp [get, add, List.getElem?_append_left small]

theorem get_modify_self {s : IntervalStore} {n : Nat} (small : n < s.size) (f : Interval → Interval) :
    (s.modify n f).get n = f (s.get n) := by
  have held : n < s.intervals.length := small
  simp [get, modify, List.getElem?_eq_getElem held]

theorem get_modify_of_ne (s : IntervalStore) {m n : Nat} (differs : m ≠ n) (f : Interval → Interval) :
    (s.modify m f).get n = s.get n := by
  simp [get, modify, differs]

theorem intervals_addAll (ivs : List Interval) (s : IntervalStore) :
    (ivs.foldl add s).intervals = s.intervals ++ ivs := by
  induction ivs generalizing s with
  | nil => simp
  | cons iv rest ih => simp [ih, add]

end GpuCodegen.IntervalStore

namespace GpuCodegen.LiveIntervals

/-- One operand of one instruction. -/
structure Access where
  position : Nat
  instruction : Instruction
  operand : RegisterOperand

/-- The accesses of numbered instructions, in order. -/
def accessesIn (entries : List (Instruction × Nat)) : List Access :=
  entries.flatMap fun (i, position) => i.registers.map fun o => ⟨position, i, o⟩

/-- Every access of a kernel. -/
def accesses (k : Kernel) : List Access := accessesIn k.code.zipIdx

theorem mem_accesses {k : Kernel} {a : Access} :
    a ∈ accesses k ↔ k.code[a.position]? = some a.instruction ∧ a.operand ∈ a.instruction.registers := by
  simp only [accesses, accessesIn, List.mem_flatMap, List.mem_map, Prod.exists]
  constructor
  · rintro ⟨i, position, member, o, operand, rfl⟩
    exact ⟨List.mem_zipIdx_iff_getElem?.mp member, operand⟩
  · rintro ⟨held, operand⟩
    exact ⟨_, _, List.mem_zipIdx_iff_getElem?.mpr held, _, operand, rfl⟩

theorem access_of_names {k : Kernel} {r : VReg} {p : Nat} {i : Instruction} {o : Operand}
    (here : k.code[p]? = some i) (member : o = i.dst ∨ o ∈ i.src) (names : o.names r = true) :
    ∃ a ∈ accesses k, a.position = p ∧ a.operand.reg = r := by
  unfold Operand.names at names
  split at names
  · rename_i x register
    refine ⟨⟨p, i, x⟩, mem_accesses.mpr ⟨here, ?_⟩, rfl, by simpa using names⟩
    rw [Instruction.registers, List.mem_append]
    rcases member with rfl | source
    · exact .inl (by simp [register])
    · exact .inr (List.mem_filterMap.mpr ⟨o, source, register⟩)
  · cases names

theorem access_of_writes {k : Kernel} {r : VReg} {p : Nat} {i : Instruction}
    (here : k.code[p]? = some i) (writes : i.writes r = true) :
    ∃ a ∈ accesses k, a.position = p ∧ a.operand.reg = r :=
  access_of_names here (.inl rfl) writes

theorem access_of_reads {k : Kernel} {r : VReg} {p : Nat} {i : Instruction}
    (here : k.code[p]? = some i) (reads : i.reads r = true) :
    ∃ a ∈ accesses k, a.position = p ∧ a.operand.reg = r := by
  obtain ⟨o, source, names⟩ := List.any_eq_true.mp reads
  exact access_of_names here (.inr source) names

/-! ## The walk -/

/-- How many accesses of a register there are among `seen`, whether a three-source instruction is among
them, and whether they lie in one block. -/
structure Tallied (store : IntervalStore) (seen : List Access) (r : VReg) (u : Usage) : Prop where
  count : (store.get u.index).accesses = seen.countP fun a => a.operand.reg = r
  triple : (store.get u.index).triple = seen.any fun a => a.operand.reg = r && a.instruction.op.isThreeSource
  unsettled : (store.get u.index).block = noBlock
  final : ∃ a ∈ seen, a.operand.reg = r ∧ a.instruction.block = u.lastBlock
  one : u.multiBlock = false ↔ ∀ a ∈ seen, a.operand.reg = r → a.instruction.block = u.lastBlock

/-- What is known of a register in use after the accesses `seen`. -/
structure Tracked (k : Kernel) (store : IntervalStore) (seen : List Access) (r : VReg) (u : Usage) :
    Prop where
  index : u.index < store.size
  reg : (store.get u.index).reg = r
  live : (store.get u.index).hole = false
  last : ∃ a ∈ seen, a.operand.reg = r ∧ a.position = u.lastAccess
  first : ∀ a ∈ seen, a.operand.reg = r → (store.get u.index).min ≤ a.position
  latest : ∀ a ∈ seen, a.operand.reg = r → a.position ≤ u.lastAccess
  stop : (store.get u.index).max = u.lastAccess
  size : ∀ a ∈ seen, a.operand.reg = r →
    a.operand.storage (k.widthOf a.instruction) ≤ (store.get u.index).size
  attained : ∃ a ∈ seen, a.operand.reg = r ∧
    (store.get u.index).size = a.operand.storage (k.widthOf a.instruction)
  -- A fresh interval begins at the largest 32-bit position.
  began : ∃ a ∈ seen, a.operand.reg = r ∧ min (a.position : Int) 2147483647 ≤ (store.get u.index).min
  tally : Tallied store seen r u

/-- The walk after the accesses `seen`: every register met has one interval of its own. -/
structure Tracks (k : Kernel) (seen : List Access) (w : Walk) : Prop where
  ordered : w.usage.Ordered
  unused : ∀ r : VReg, w.usage.find? r.number = none → ∀ a ∈ seen, a.operand.reg ≠ r
  used : ∀ (r : VReg) u, w.usage.find? r.number = some u → Tracked k w.store seen r u
  covered : ∀ n < w.store.size, ∃ (r : VReg) (u : Usage), w.usage.find? r.number = some u ∧ u.index = n

theorem Tracks.same_index {k : Kernel} {seen : List Access} {w : Walk} (tracks : Tracks k seen w)
    {r r' : VReg} {u u' : Usage} (found : w.usage.find? r.number = some u)
    (found' : w.usage.find? r'.number = some u') (same : u.index = u'.index) : r = r' := by
  rw [← (tracks.used r u found).reg, ← (tracks.used r' u' found').reg, same]

theorem number_ne {r r' : VReg} (differs : r ≠ r') : r.number ≠ r'.number := by
  intro same
  exact differs (by cases r; cases r'; simp_all)

theorem tracks_start (k : Kernel) : Tracks k [] {} where
  ordered := OrdMap.ordered_empty
  unused := by simp
  used := by
    intro r u found
    simp at found
  covered := by
    intro n small
    exact absurd small (Nat.not_lt_zero n)

/-- An interval with one more access. -/
def recorded (position : Nat) (i : Instruction) (size : UInt32) (iv : Interval) : Interval :=
  { iv.observe position with
    size := if iv.size < size then size else iv.size
    triple := iv.triple || i.op.isThreeSource }

theorem recorded_min (position : Nat) (i : Instruction) (size : UInt32) (iv : Interval) :
    (recorded position i size iv).min ≤ position ∧ (recorded position i size iv).min ≤ iv.min := by
  simp only [recorded, Interval.observe]
  refine ⟨?_, ?_⟩ <;> split <;> omega

theorem recorded_began (position : Nat) (i : Instruction) (size : UInt32) (iv : Interval) :
    min (position : Int) iv.min ≤ (recorded position i size iv).min := by
  simp only [recorded, Interval.observe]
  split <;> omega

theorem recorded_max {position : Nat} {iv : Interval} (before : iv.max ≤ position) (i : Instruction)
    (size : UInt32) : (recorded position i size iv).max = position := by
  simp only [recorded, Interval.observe]
  split <;> omega

theorem recorded_size (position : Nat) (i : Instruction) (size : UInt32) (iv : Interval) :
    size ≤ (recorded position i size iv).size ∧ iv.size ≤ (recorded position i size iv).size := by
  simp only [recorded]
  by_cases larger : iv.size < size
  · rw [if_pos larger]
    exact ⟨UInt32.le_refl _, UInt32.le_of_lt larger⟩
  · rw [if_neg larger]
    exact ⟨UInt32.not_lt.mp larger, UInt32.le_refl _⟩

theorem recorded_attained (position : Nat) (i : Instruction) (size : UInt32) (iv : Interval) :
    (recorded position i size iv).size = size ∨ (recorded position i size iv).size = iv.size := by
  simp only [recorded]
  split
  · exact .inl rfl
  · exact .inr rfl

theorem access_unused {w : Walk} {o : RegisterOperand} (missing : w.usage.find? o.reg.number = none)
    (position : Nat) (i : Instruction) (width : Int) :
    w.access position i width o =
      { w with
        store := w.store.add (recorded position i (o.storage width) { reg := o.reg })
        usage := w.usage.insert o.reg.number ⟨w.store.size, position, i.block, false⟩ } := by
  simp only [Walk.access, missing]
  rfl

theorem access_used {w : Walk} {o : RegisterOperand} {u : Usage}
    (found : w.usage.find? o.reg.number = some u) (position : Nat) (i : Instruction) (width : Int) :
    w.access position i width o =
      { w with
        store := w.store.modify u.index (recorded position i (o.storage width))
        usage := w.usage.insert o.reg.number
          ⟨u.index, position, i.block, u.multiBlock || u.lastBlock != i.block⟩ } := by
  simp only [Walk.access, found]
  rfl

theorem mem_seen_of_ne {seen : List Access} {a x : Access} {r : VReg} (other : a.operand.reg ≠ r)
    (member : x ∈ seen ++ [a]) (named : x.operand.reg = r) : x ∈ seen := by
  rcases List.mem_append.mp member with old | new
  · exact old
  · rw [List.mem_singleton.mp new] at named
    exact absurd named other

theorem Tallied.same {store store' : IntervalStore} {seen : List Access} {r : VReg} {u : Usage}
    (before : Tallied store seen r u)
    (accesses : (store'.get u.index).accesses = (store.get u.index).accesses)
    (triple : (store'.get u.index).triple = (store.get u.index).triple)
    (block : (store'.get u.index).block = (store.get u.index).block) : Tallied store' seen r u :=
  ⟨accesses.trans before.count, triple.trans before.triple, block.trans before.unsettled, before.final, before.one⟩

theorem Tallied.keep {store : IntervalStore} {seen : List Access} {r : VReg} {u : Usage} {a : Access}
    (before : Tallied store seen r u) (other : a.operand.reg ≠ r) :
    Tallied store (seen ++ [a]) r u := by
  refine ⟨?_, ?_, before.unsettled, ?_, ?_⟩
  · simp [before.count, other]
  · simp [before.triple, other]
  · obtain ⟨x, member, named, block⟩ := before.final
    exact ⟨x, List.mem_append_left _ member, named, block⟩
  · rw [before.one]
    constructor
    · intro all x member named
      exact all x (mem_seen_of_ne other member named) named
    · intro all x member named
      exact all x (List.mem_append_left _ member) named

theorem Tallied.fresh {store : IntervalStore} {seen : List Access} {position : Nat} {i : Instruction}
    {o : RegisterOperand} {u : Usage} {size : UInt32} (unseen : ∀ a ∈ seen, a.operand.reg ≠ o.reg)
    (added : store.get u.index = recorded position i size { reg := o.reg })
    (block : u.lastBlock = i.block) (one : u.multiBlock = false) :
    Tallied store (seen ++ [⟨position, i, o⟩]) o.reg u := by
  have none : (seen.countP fun a => a.operand.reg = o.reg) = 0 := by
    simpa [List.countP_eq_zero] using unseen
  have others : (seen.any fun a => a.operand.reg = o.reg && a.instruction.op.isThreeSource) = false := by
    rw [List.any_eq_false]
    intro a member
    simp [unseen a member]
  refine ⟨?_, ?_, by rw [added]; rfl, ⟨⟨position, i, o⟩, by simp, rfl, block.symm⟩, ?_⟩
  · rw [added, List.countP_append, none]
    simp [recorded, Interval.observe]
  · rw [added, List.any_append, others]
    simp [recorded]
  · refine ⟨fun _ a member named => ?_, fun _ => one⟩
    rcases List.mem_append.mp member with old | new
    · exact absurd named (unseen a old)
    · rw [List.mem_singleton.mp new, block]

/-- The walk notices a second block when the block of an access is not that of the one before. -/
theorem Tallied.again {store store' : IntervalStore} {seen : List Access} {position : Nat}
    {i : Instruction} {o : RegisterOperand} {u u' : Usage} {size : UInt32}
    (before : Tallied store seen o.reg u)
    (changed : store'.get u'.index = recorded position i size (store.get u.index))
    (block : u'.lastBlock = i.block)
    (blocks : u'.multiBlock = (u.multiBlock || u.lastBlock != i.block)) :
    Tallied store' (seen ++ [⟨position, i, o⟩]) o.reg u' := by
  refine ⟨?_, ?_, ?_, ⟨⟨position, i, o⟩, by simp, rfl, block.symm⟩, ?_⟩
  · rw [changed, List.countP_append, ← before.count]
    simp [recorded, Interval.observe]
  · rw [changed, List.any_append, ← before.triple]
    simp [recorded]
  · rw [changed]
    exact before.unsettled
  · rw [blocks, block, Bool.or_eq_false_iff, before.one, bne_eq_false_iff_eq]
    constructor
    · rintro ⟨all, same⟩ a member named
      rcases List.mem_append.mp member with old | new
      · exact (all a old named).trans same
      · rw [List.mem_singleton.mp new]
    · intro all
      obtain ⟨a, member, named, final⟩ := before.final
      have same := final.symm.trans (all a (List.mem_append_left _ member) named)
      exact ⟨fun x old name => (all x (List.mem_append_left _ old) name).trans same.symm, same⟩

/-- An access of another register changes nothing. -/
theorem Tracked.keep {k : Kernel} {store store' : IntervalStore} {seen : List Access} {r : VReg}
    {u : Usage} {a : Access} (before : Tracked k store seen r u) (other : a.operand.reg ≠ r)
    (larger : store.size ≤ store'.size) (kept : store'.get u.index = store.get u.index) :
    Tracked k store' (seen ++ [a]) r u := by
  have old (x : Access) (member : x ∈ seen ++ [a]) (named : x.operand.reg = r) : x ∈ seen :=
    mem_seen_of_ne other member named
  refine ⟨Nat.lt_of_lt_of_le before.index larger, ?_, ?_, ?_, ?_, ?_, ?_, ?_, ?_, ?_,
    (before.tally.keep other).same (by rw [kept]) (by rw [kept]) (by rw [kept])⟩
  · rw [kept, before.reg]
  · rw [kept, before.live]
  · obtain ⟨x, member, named, at_⟩ := before.last
    exact ⟨x, List.mem_append_left _ member, named, at_⟩
  · intro x member named
    rw [kept]
    exact before.first x (old x member named) named
  · intro x member named
    exact before.latest x (old x member named) named
  · rw [kept, before.stop]
  · intro x member named
    rw [kept]
    exact before.size x (old x member named) named
  · obtain ⟨x, member, named, size⟩ := before.attained
    exact ⟨x, List.mem_append_left _ member, named, by rw [kept, size]⟩
  · obtain ⟨x, member, named, began⟩ := before.began
    exact ⟨x, List.mem_append_left _ member, named, by rw [kept]; exact began⟩

theorem Tracked.fresh {k : Kernel} {store : IntervalStore} {seen : List Access} {position : Nat}
    {i : Instruction} {o : RegisterOperand} {u : Usage} (unseen : ∀ a ∈ seen, a.operand.reg ≠ o.reg)
    (index : u.index = store.size) (now : u.lastAccess = position) (block : u.lastBlock = i.block)
    (one : u.multiBlock = false) :
    Tracked k (store.add (recorded position i (o.storage (k.widthOf i)) { reg := o.reg }))
      (seen ++ [⟨position, i, o⟩]) o.reg u := by
  have only (a : Access) (member : a ∈ seen ++ [⟨position, i, o⟩]) (named : a.operand.reg = o.reg) :
      a = ⟨position, i, o⟩ := by
    rcases List.mem_append.mp member with old | new
    · exact absurd named (unseen a old)
    · exact List.mem_singleton.mp new
  have added : (store.add (recorded position i (o.storage (k.widthOf i)) { reg := o.reg })).get u.index =
      recorded position i (o.storage (k.widthOf i)) { reg := o.reg } := by
    rw [index, IntervalStore.get_add_self]
  refine ⟨by simp [index], by rw [added]; rfl, by rw [added]; rfl,
    ⟨⟨position, i, o⟩, by simp, rfl, now.symm⟩, ?_, ?_, ?_, ?_, ⟨⟨position, i, o⟩, by simp, rfl, ?_⟩,
    ⟨⟨position, i, o⟩, by simp, rfl, ?_⟩, .fresh unseen added block one⟩
  · intro a member named
    rw [only a member named, added]
    exact (recorded_min _ _ _ _).1
  · intro a member named
    exact Nat.le_of_eq (by rw [only a member named, now])
  · rw [added, now]
    refine recorded_max ?_ i _
    change (-2147483648 : Int) ≤ position
    omega
  · intro a member named
    rw [only a member named, added]
    exact (recorded_size _ _ _ _).1
  · -- A fresh interval has size zero, which no access is below.
    rw [added]
    rcases recorded_attained position i (o.storage (k.widthOf i)) { reg := o.reg } with now | zero
    · exact now
    · have least := (recorded_size position i (o.storage (k.widthOf i)) { reg := o.reg }).1
      rw [zero] at least ⊢
      exact UInt32.le_antisymm (UInt32.zero_le) least
  · rw [added]
    exact recorded_began position i _ { reg := o.reg }

theorem Tracked.again {k : Kernel} {store : IntervalStore} {seen : List Access} {position : Nat}
    {i : Instruction} {o : RegisterOperand} {u u' : Usage} (before : Tracked k store seen o.reg u)
    (later : ∀ a ∈ seen, a.position ≤ position) (index : u'.index = u.index) (now : u'.lastAccess = position)
    (block : u'.lastBlock = i.block) (blocks : u'.multiBlock = (u.multiBlock || u.lastBlock != i.block)) :
    Tracked k (store.modify u.index (recorded position i (o.storage (k.widthOf i))))
      (seen ++ [⟨position, i, o⟩]) o.reg u' := by
  have changed : (store.modify u.index (recorded position i (o.storage (k.widthOf i)))).get u'.index =
      recorded position i (o.storage (k.widthOf i)) (store.get u.index) := by
    rw [index, IntervalStore.get_modify_self before.index]
  refine ⟨by simpa [index] using before.index, ?_, ?_, ⟨⟨position, i, o⟩, by simp, rfl, now.symm⟩,
    ?_, ?_, ?_, ?_, ?_, ?_, before.tally.again changed block blocks⟩
  · rw [changed]
    exact before.reg
  · rw [changed]
    exact before.live
  · intro a member named
    rw [changed]
    obtain ⟨here, least⟩ := recorded_min position i (o.storage (k.widthOf i)) (store.get u.index)
    rcases List.mem_append.mp member with old | new
    · exact Int.le_trans least (before.first a old named)
    · rw [List.mem_singleton.mp new]
      exact here
  · intro a member _
    rw [now]
    rcases List.mem_append.mp member with old | new
    · exact later a old
    · exact Nat.le_of_eq (by rw [List.mem_singleton.mp new])
  · rw [changed, now]
    refine recorded_max ?_ i _
    obtain ⟨a, member, -, at_⟩ := before.last
    have bound := later a member
    rw [before.stop]
    omega
  · intro a member named
    rw [changed]
    obtain ⟨here, most⟩ := recorded_size position i (o.storage (k.widthOf i)) (store.get u.index)
    rcases List.mem_append.mp member with old | new
    · exact UInt32.le_trans (before.size a old named) most
    · rw [List.mem_singleton.mp new]
      exact here
  · rw [changed]
    rcases recorded_attained position i (o.storage (k.widthOf i)) (store.get u.index) with here | kept
    · exact ⟨⟨position, i, o⟩, by simp, rfl, here⟩
    · obtain ⟨a, member, named, size⟩ := before.attained
      exact ⟨a, List.mem_append_left _ member, named, kept.trans size⟩
  · rw [changed]
    have least := recorded_began position i (o.storage (k.widthOf i)) (store.get u.index)
    obtain ⟨a, member, named, began⟩ := before.began
    by_cases earlier : (position : Int) < (store.get u.index).min
    · exact ⟨⟨position, i, o⟩, by simp, rfl, by dsimp only; omega⟩
    · exact ⟨a, List.mem_append_left _ member, named, by omega⟩

theorem Tracks.unused_insert {k : Kernel} {seen : List Access} {w : Walk} {u : Usage}
    (tracks : Tracks k seen w) (a : Access) (r : VReg)
    (absent : (w.usage.insert a.operand.reg.number u).find? r.number = none) :
    ∀ x ∈ seen ++ [a], x.operand.reg ≠ r := by
  intro x member
  have other : r ≠ a.operand.reg := by
    rintro rfl
    simp at absent
  rw [OrdMap.find?_insert_of_ne _ (number_ne other)] at absent
  rcases List.mem_append.mp member with old | new
  · exact tracks.unused r absent x old
  · rw [List.mem_singleton.mp new]
    exact other.symm

/-- A register met for the first time gets an interval of its own. -/
theorem Tracks.enter {k : Kernel} {seen : List Access} {w : Walk} (tracks : Tracks k seen w)
    {position : Nat} {i : Instruction} {o : RegisterOperand}
    (missing : w.usage.find? o.reg.number = none) :
    Tracks k (seen ++ [⟨position, i, o⟩]) (w.access position i (k.widthOf i) o) := by
  rw [access_unused missing]
  refine ⟨OrdMap.ordered_insert tracks.ordered _ _, ?_, ?_, ?_⟩
  · exact tracks.unused_insert ⟨position, i, o⟩
  · intro r u found
    by_cases same : r = o.reg
    · subst same
      simp only [OrdMap.find?_insert_self, Option.some.injEq] at found
      subst found
      exact .fresh (tracks.unused o.reg missing) rfl rfl rfl rfl
    · rw [OrdMap.find?_insert_of_ne _ (number_ne same)] at found
      have before := tracks.used r u found
      exact before.keep (fun named => same named.symm) (by simp)
        (IntervalStore.get_add_of_lt before.index _)
  · intro n small
    simp only [IntervalStore.size_add] at small
    by_cases last : n = w.store.size
    · exact ⟨o.reg, _, OrdMap.find?_insert_self _ _ _, last.symm⟩
    · obtain ⟨r, u, found, index⟩ := tracks.covered n (by omega)
      have other : r ≠ o.reg := by
        rintro rfl
        simp [missing] at found
      exact ⟨r, u, by rw [OrdMap.find?_insert_of_ne _ (number_ne other)]; exact found, index⟩

/-- A register met again has its interval widened. -/
theorem Tracks.again {k : Kernel} {seen : List Access} {w : Walk} (tracks : Tracks k seen w)
    {position : Nat} {i : Instruction} {o : RegisterOperand} {u : Usage}
    (later : ∀ a ∈ seen, a.position ≤ position) (known : w.usage.find? o.reg.number = some u) :
    Tracks k (seen ++ [⟨position, i, o⟩]) (w.access position i (k.widthOf i) o) := by
  rw [access_used known]
  refine ⟨OrdMap.ordered_insert tracks.ordered _ _, ?_, ?_, ?_⟩
  · exact tracks.unused_insert ⟨position, i, o⟩
  · intro r u' found
    by_cases same : r = o.reg
    · subst same
      simp only [OrdMap.find?_insert_self, Option.some.injEq] at found
      subst found
      exact (tracks.used o.reg u known).again later rfl rfl rfl rfl
    · rw [OrdMap.find?_insert_of_ne _ (number_ne same)] at found
      have before := tracks.used r u' found
      have apart : u.index ≠ u'.index := fun index => same (tracks.same_index found known index.symm)
      exact before.keep (fun named => same named.symm) (by simp)
        (IntervalStore.get_modify_of_ne w.store apart _)
  · intro n small
    simp only [IntervalStore.size_modify] at small
    obtain ⟨r, u', found, index⟩ := tracks.covered n small
    by_cases same : r = o.reg
    · subst same
      rw [known] at found
      cases found
      exact ⟨o.reg, _, OrdMap.find?_insert_self _ _ _, index⟩
    · exact ⟨r, u', by rw [OrdMap.find?_insert_of_ne _ (number_ne same)]; exact found, index⟩

/-- One more access, at a position no earlier than the ones before. -/
theorem Tracks.access {k : Kernel} {seen : List Access} {w : Walk} (tracks : Tracks k seen w)
    {position : Nat} {i : Instruction} (o : RegisterOperand)
    (later : ∀ a ∈ seen, a.position ≤ position) :
    Tracks k (seen ++ [⟨position, i, o⟩]) (w.access position i (k.widthOf i) o) := by
  cases known : w.usage.find? o.reg.number with
  | none => exact tracks.enter known
  | some u => exact tracks.again later known

/-- All operands of one instruction. -/
theorem Tracks.accesses {k : Kernel} {w : Walk} {position : Nat} {i : Instruction}
    (operands : List RegisterOperand) {seen : List Access} (tracks : Tracks k seen w)
    (later : ∀ a ∈ seen, a.position ≤ position) :
    Tracks k (seen ++ operands.map fun o => ⟨position, i, o⟩)
      (operands.foldl (fun w o => w.access position i (k.widthOf i) o) w) := by
  induction operands generalizing seen w with
  | nil => simpa using tracks
  | cons o rest ih =>
    have next := ih (tracks.access (i := i) o later) (by
      intro a member
      rcases List.mem_append.mp member with old | new
      · exact later a old
      · exact Nat.le_of_eq (by rw [List.mem_singleton.mp new]))
    simpa using next

/-- Bank hints leave places and sizes alone. -/
theorem Tracks.avoid {k : Kernel} {seen : List Access} {w : Walk} (tracks : Tracks k seen w)
    (r other : VReg) : Tracks k seen (w.avoid r other) := by
  unfold Walk.avoid
  cases known : w.usage.find? r.number with
  | none => exact tracks
  | some u =>
    have same (n : Nat) :
        (w.store.modify u.index fun iv =>
          if iv.conflict = .none then { iv with conflict := other } else iv).get n = w.store.get n ∨
        (w.store.modify u.index fun iv =>
          if iv.conflict = .none then { iv with conflict := other } else iv).get n =
            { w.store.get n with conflict := other } := by
      by_cases here : u.index = n
      · subst here
        rw [IntervalStore.get_modify_self (tracks.used r u known).index]
        split
        · exact .inr rfl
        · exact .inl rfl
      · exact .inl (IntervalStore.get_modify_of_ne w.store here _)
    refine ⟨tracks.ordered, tracks.unused, ?_, ?_⟩
    · intro r' u' found
      have before := tracks.used r' u' found
      rcases same u'.index with kept | kept <;>
        exact ⟨by simpa using before.index, by rw [kept]; exact before.reg,
          by rw [kept]; exact before.live, before.last, by rw [kept]; exact before.first, before.latest,
          by rw [kept]; exact before.stop, by rw [kept]; exact before.size,
          by rw [kept]; exact before.attained, by rw [kept]; exact before.began,
          before.tally.same (by rw [kept]) (by rw [kept]) (by rw [kept])⟩
    · simpa using tracks.covered

theorem Tracks.separate {k : Kernel} {seen : List Access} {w : Walk} (tracks : Tracks k seen w)
    (i : Instruction) : Tracks k seen (w.separate i) := by
  unfold Walk.separate
  split
  · split
    · exact tracks
    · exact (tracks.avoid _ _).avoid _ _
  · exact tracks

/-- A hole of a kernel: a stretch between an access of a register and the instruction that next
accesses it, which overwrites it. -/
structure IsHole (k : Kernel) (h : Interval) : Prop where
  hole : h.hole = true
  unpinned : k.pin? h.reg = none
  start : ∃ a ∈ accesses k, a.operand.reg = h.reg ∧ h.min = a.position
  stop : ∃ (position : Nat) (i : Instruction) (d : RegisterOperand), k.code[position]? = some i ∧
    i.dst.register? = some d ∧ d.reg = h.reg ∧ k.fullyDefines i d = true ∧ h.max = position
  gap : h.min + 1 < h.max
  untouched : ∀ a ∈ accesses k, a.operand.reg = h.reg → a.position ≤ h.min ∨ h.max ≤ a.position

/-- The walk over the first instructions of a kernel. -/
structure Walked (k : Kernel) (done : List (Instruction × Nat)) (w : Walk) : Prop where
  tracks : Tracks k (accessesIn done) w
  holes : ∀ h ∈ w.holes, IsHole k h
  ends : ∀ h ∈ w.holes, h.max < done.length
  ascending : w.holes.Pairwise fun h h' => h.max < h'.max

theorem accessesIn_append (a b : List (Instruction × Nat)) :
    accessesIn (a ++ b) = accessesIn a ++ accessesIn b := by
  simp [accessesIn]

theorem position_of_split {k : Kernel} {done rest : List (Instruction × Nat)}
    {entry : Instruction × Nat} (split : k.code.zipIdx = done ++ entry :: rest) :
    entry.2 = done.length ∧ k.code[done.length]? = some entry.1 := by
  have here : k.code.zipIdx[done.length]? = some entry := by simp [split]
  have held := List.mem_zipIdx_iff_getElem?.mp (List.mem_of_getElem? here)
  rw [List.getElem?_zipIdx] at here
  obtain ⟨i, found, same⟩ := Option.map_eq_some_iff.mp here
  subst same
  exact ⟨Nat.zero_add _, found⟩

theorem mem_accessesIn_of_lt {k : Kernel} {done rest : List (Instruction × Nat)} {a : Access}
    (split : k.code.zipIdx = done ++ rest) (member : a ∈ accesses k)
    (early : a.position < done.length) : a ∈ accessesIn done := by
  obtain ⟨held, operand⟩ := mem_accesses.mp member
  have entry : k.code.zipIdx[a.position]? = some (a.instruction, a.position) := by
    simp [List.getElem?_zipIdx, held]
  rw [split, List.getElem?_append_left early] at entry
  exact List.mem_flatMap.mpr ⟨_, List.mem_of_getElem? entry, List.mem_map.mpr ⟨_, operand, rfl⟩⟩

theorem mem_accesses_of_done {k : Kernel} {done rest : List (Instruction × Nat)} {a : Access}
    (split : k.code.zipIdx = done ++ rest) (member : a ∈ accessesIn done) :
    a ∈ accesses k ∧ a.position < done.length := by
  have all : a ∈ accesses k := by
    rw [accesses, split, accessesIn_append]
    exact List.mem_append_left _ member
  refine ⟨all, ?_⟩
  obtain ⟨⟨i, position⟩, entry, mapped⟩ := List.mem_flatMap.mp member
  obtain ⟨o, -, rfl⟩ := List.mem_map.mp mapped
  obtain ⟨n, small, here⟩ := List.getElem_of_mem entry
  have numbered : k.code.zipIdx[n]? = some (i, position) := by
    rw [split, List.getElem?_append_left small, List.getElem?_eq_getElem small, here]
  rw [List.getElem?_zipIdx] at numbered
  obtain ⟨j, -, same⟩ := Option.map_eq_some_iff.mp numbered
  simp only [Prod.mk.injEq, Nat.zero_add] at same
  simpa [← same.2] using small

theorem holeBefore_isHole {k : Kernel} {done rest : List (Instruction × Nat)} {w : Walk}
    {i : Instruction} {position : Nat} {h : Interval} (walked : Walked k done w)
    (split : k.code.zipIdx = done ++ (i, position) :: rest)
    (found : w.holeBefore? k position i = some h) : IsHole k h ∧ h.max = position := by
  obtain ⟨numbered, held⟩ := position_of_split split
  simp only at numbered held
  simp only [Walk.holeBefore?, Option.bind_eq_bind, Option.bind_eq_some_iff] at found
  obtain ⟨d, dst, u, known, found⟩ := found
  split at found
  · rename_i conditions
    simp only [Bool.and_eq_true, beq_iff_eq, decide_eq_true_eq, Option.isNone_iff_eq_none] at conditions
    obtain ⟨⟨⟨⟨unpinned, -⟩, defines⟩, -⟩, gap⟩ := conditions
    cases found
    have tracked := walked.tracks.used d.reg u known
    obtain ⟨a, member, named, at_⟩ := tracked.last
    obtain ⟨all, -⟩ := mem_accesses_of_done split member
    refine ⟨⟨rfl, unpinned, ⟨a, all, named, by simp [at_]⟩,
      ⟨position, i, d, by rw [numbered]; exact held, dst, rfl, defines, rfl⟩, ?_, ?_⟩, rfl⟩
    · change (u.lastAccess : Int) + 1 < position
      omega
    · intro x inKernel sameReg
      by_cases early : x.position < done.length
      · have bound := tracked.latest x (mem_accessesIn_of_lt split inKernel early) sameReg
        left
        change (x.position : Int) ≤ u.lastAccess
        omega
      · right
        change (position : Int) ≤ x.position
        omega
  · cases found

theorem accesses_holes (position : Nat) (i : Instruction) (width : Int)
    (operands : List RegisterOperand) (w : Walk) :
    (operands.foldl (fun w o => w.access position i width o) w).holes = w.holes := by
  induction operands generalizing w with
  | nil => rfl
  | cons o rest ih =>
    rw [List.foldl_cons, ih, Walk.access]
    split <;> rfl

theorem separate_holes (w : Walk) (i : Instruction) : (w.separate i).holes = w.holes := by
  have avoided (w : Walk) (r other : VReg) : (w.avoid r other).holes = w.holes := by
    unfold Walk.avoid
    split <;> rfl
  unfold Walk.separate
  split
  · split
    · rfl
    · rw [avoided, avoided]
  · rfl

theorem Walked.step {k : Kernel} {done rest : List (Instruction × Nat)} {w : Walk}
    {entry : Instruction × Nat} (walked : Walked k done w)
    (split : k.code.zipIdx = done ++ entry :: rest) : Walked k (done ++ [entry]) (w.step k entry) := by
  obtain ⟨i, position⟩ := entry
  obtain ⟨numbered, -⟩ := position_of_split split
  simp only at numbered
  have later (a : Access) (member : a ∈ accessesIn done) : a.position ≤ position := by
    have small := (mem_accesses_of_done split member).2
    omega
  have noted : Tracks k (accessesIn done)
      { w with holes := w.holes ++ (w.holeBefore? k position i).toList } := by
    obtain ⟨ordered, unused, used, covered⟩ := walked.tracks
    exact ⟨ordered, unused, used, covered⟩
  have accessed := (noted.accesses (i := i) i.registers later).separate i
  have holes : (w.step k (i, position)).holes = w.holes ++ (w.holeBefore? k position i).toList := by
    simp only [Walk.step, separate_holes, accesses_holes]
  refine ⟨?_, ?_, ?_, ?_⟩
  · obtain ⟨ordered, unused, used, covered⟩ := accessed
    rw [accessesIn_append]
    simp only [accessesIn, List.flatMap_cons, List.flatMap_nil, List.append_nil]
    exact ⟨ordered, unused, used, covered⟩
  · rw [holes]
    intro h member
    rcases List.mem_append.mp member with old | new
    · exact walked.holes h old
    · exact (holeBefore_isHole walked split (by simpa using new)).1
  · rw [holes]
    intro h member
    rw [List.length_append]
    rcases List.mem_append.mp member with old | new
    · have bound := walked.ends h old
      simp only [List.length_singleton, Int.natCast_add]
      omega
    · rw [(holeBefore_isHole walked split (by simpa using new)).2]
      simp only [List.length_singleton, Int.natCast_add]
      omega
  · rw [holes]
    refine List.pairwise_append.mpr ⟨walked.ascending, ?_, ?_⟩
    · cases w.holeBefore? k position i <;> simp
    · intro h old h' new
      have stop := (holeBefore_isHole walked split (h := h') (by simpa using new)).2
      have bound := walked.ends h old
      omega

theorem walk_walked (k : Kernel) : Walked k k.code.zipIdx k.walk := by
  have run (rest done : List (Instruction × Nat)) (w : Walk) (walked : Walked k done w)
      (split : k.code.zipIdx = done ++ rest) : Walked k k.code.zipIdx (rest.foldl (Walk.step k) w) := by
    induction rest generalizing done w with
    | nil =>
      rw [List.append_nil] at split
      rw [split]
      exact walked
    | cons entry rest ih =>
      exact ih _ _ (walked.step split) (by simp [split])
  exact run _ [] {} ⟨tracks_start k, by simp, by simp, .nil⟩ rfl

/-! ## Widening -/

/-- The second interval is the first over a longer range. -/
structure Widened (iv iv' : Interval) : Prop where
  reg : iv'.reg = iv.reg
  hole : iv'.hole = iv.hole
  size : iv'.size = iv.size
  accesses : iv'.accesses = iv.accesses
  triple : iv'.triple = iv.triple
  min : iv'.min ≤ iv.min
  max : iv.max ≤ iv'.max

theorem Widened.refl (iv : Interval) : Widened iv iv :=
  ⟨rfl, rfl, rfl, rfl, rfl, Int.le_refl _, Int.le_refl _⟩

theorem Widened.trans {a b c : Interval} (ab : Widened a b) (bc : Widened b c) : Widened a c :=
  ⟨bc.reg.trans ab.reg, bc.hole.trans ab.hole, bc.size.trans ab.size, bc.accesses.trans ab.accesses,
    bc.triple.trans ab.triple, Int.le_trans bc.min ab.min, Int.le_trans ab.max bc.max⟩

/-- The block of a register is known before widening if the walk met its accesses in one block. -/
theorem settle_other {k : Kernel} {iv : Interval} (other : iv.reg ≠ k.stackPointer) (u : Usage) :
    Liveness.settle k u iv = if u.multiBlock then iv else { iv with block := u.lastBlock } := by
  simp only [Liveness.settle]
  cases u.multiBlock <;> exact if_neg other

/-- The stack pointer lives throughout the program. -/
theorem settle_stackPointer {k : Kernel} {iv : Interval} (same : iv.reg = k.stackPointer) (u : Usage) :
    Liveness.settle k u iv =
      { iv with
        min := if iv.min ≤ 0 then iv.min else 0
        max := if iv.max < (k.code.length : Int) - 1 then (k.code.length : Int) - 1 else iv.max
        block := noBlock } := by
  simp only [Liveness.settle]
  cases u.multiBlock <;> exact if_pos same

theorem widened_settle (k : Kernel) (u : Usage) (iv : Interval) :
    Widened iv (Liveness.settle k u iv) := by
  by_cases same : iv.reg = k.stackPointer
  · rw [settle_stackPointer same]
    refine ⟨rfl, rfl, rfl, rfl, rfl, ?_, ?_⟩ <;> dsimp only <;> split <;> omega
  · rw [settle_other same]
    split
    · exact .refl iv
    · exact ⟨rfl, rfl, rfl, rfl, rfl, Int.le_refl _, Int.le_refl _⟩

theorem widened_widenOver (k : Kernel) (iv : Interval) (l : Loop) :
    Widened iv (Liveness.widenOver k iv l) := by
  unfold Liveness.widenOver
  dsimp only
  split
  · refine ⟨rfl, rfl, rfl, rfl, rfl, ?_, ?_⟩ <;> dsimp only <;> split <;> omega
  · exact .refl iv

theorem widened_pass (k : Kernel) (loops : List Loop) (iv : Interval) :
    Widened iv (loops.foldl (Liveness.widenOver k) iv) := by
  induction loops generalizing iv with
  | nil => exact .refl iv
  | cons l rest ih => exact (widened_widenOver k iv l).trans (ih _)

theorem widened_widen (k : Kernel) (loops : List Loop) (iv : Interval) :
    Widened iv (Liveness.widen k loops iv) := by
  have passes (rest : List Loop) (iv : Interval) :
      Widened iv (rest.foldl (fun iv _ => loops.foldl (Liveness.widenOver k) iv) iv) := by
    induction rest generalizing iv with
    | nil => exact .refl iv
    | cons l rest ih => exact (widened_pass k loops iv).trans (ih _)
  exact passes loops iv

/-! ## The intervals of a kernel -/

/-- The interval a register in use ends up with. -/
def settled (k : Kernel) (u : Usage) : Interval :=
  Liveness.widen k k.loops (Liveness.settle k u (k.walk.store.get u.index))

/-- Holes that cover no backward jump. -/
def keptHoles (k : Kernel) : List Interval :=
  k.walk.holes.filter fun h => !Liveness.coversJump k.loops h

theorem modifyAll_get (f : Usage → Interval → Interval) (entries : List (UInt32 × Usage))
    (s : IntervalStore) (apart : entries.Pairwise fun a b => a.2.index ≠ b.2.index)
    (held : ∀ e ∈ entries, e.2.index < s.size) :
    (entries.foldl (fun s (_, u) => s.modify u.index (f u)) s).size = s.size ∧
    (∀ e ∈ entries, (entries.foldl (fun s (_, u) => s.modify u.index (f u)) s).get e.2.index =
      f e.2 (s.get e.2.index)) ∧
    ∀ n, (∀ e ∈ entries, e.2.index ≠ n) →
      (entries.foldl (fun s (_, u) => s.modify u.index (f u)) s).get n = s.get n := by
  induction entries generalizing s with
  | nil => simp
  | cons head rest ih =>
    obtain ⟨other, apartRest⟩ := List.pairwise_cons.mp apart
    obtain ⟨size, here, elsewhere⟩ := ih (s.modify head.2.index (f head.2)) apartRest (by
      intro e member
      simpa using held e (List.mem_cons_of_mem _ member))
    refine ⟨by simpa using size, ?_, ?_⟩
    · intro e member
      rw [List.foldl_cons]
      rcases List.mem_cons.mp member with rfl | later
      · rw [elsewhere _ (fun x m => (other x m).symm),
          IntervalStore.get_modify_self (held e List.mem_cons_self)]
      · rw [here e later, IntervalStore.get_modify_of_ne s (other e later)]
    · intro n missing
      rw [List.foldl_cons, elsewhere n fun e m => missing e (List.mem_cons_of_mem _ m),
        IntervalStore.get_modify_of_ne s (missing head List.mem_cons_self)]

/-- The store of a kernel before its holes. -/
def settledStore (k : Kernel) : IntervalStore :=
  k.walk.usage.entries.foldl
    (fun s (_, u) => s.modify u.index fun iv => Liveness.widen k k.loops (Liveness.settle k u iv))
    k.walk.store

theorem usage_mem {k : Kernel} {r : VReg} {u : Usage} :
    k.walk.usage.find? r.number = some u ↔ (r.number, u) ∈ k.walk.usage.entries :=
  OrdMap.find?_eq_some (walk_walked k).tracks.ordered

theorem settledStore_get (k : Kernel) : (settledStore k).size = k.walk.store.size ∧
    ∀ (r : VReg) u, k.walk.usage.find? r.number = some u →
      (settledStore k).get u.index = settled k u := by
  have tracks := (walk_walked k).tracks
  have find (e : UInt32 × Usage) (member : e ∈ k.walk.usage.entries) :
      k.walk.usage.find? (VReg.mk e.1).number = some e.2 :=
    usage_mem.mpr member
  have apart : k.walk.usage.entries.Pairwise fun a b => a.2.index ≠ b.2.index := by
    refine List.Pairwise.imp_of_mem ?_ tracks.ordered
    intro a b memberA memberB ascending same
    have equal : a.1 = b.1 :=
      congrArg VReg.number (tracks.same_index (find a memberA) (find b memberB) same)
    exact UInt32.lt_irrefl _ (equal ▸ ascending)
  obtain ⟨size, here, -⟩ := modifyAll_get
    (fun u iv => Liveness.widen k k.loops (Liveness.settle k u iv)) k.walk.usage.entries k.walk.store
    apart fun e member => (tracks.used _ _ (find e member)).index
  exact ⟨size, fun r u found => here _ (usage_mem.mp found)⟩

theorem ofKernel_intervals (k : Kernel) :
    (Liveness.ofKernel k).store.intervals = (settledStore k).intervals ++ keptHoles k :=
  IntervalStore.intervals_addAll (keptHoles k) (settledStore k)

theorem indexOf_ofKernel (k : Kernel) (r : VReg) :
    (Liveness.ofKernel k).indexOf? r = (k.walk.usage.find? r.number).map Usage.index := by
  have mapped (entries : List (UInt32 × Usage)) :
      OrdMap.find? ⟨entries.map fun (r, u) => (r, u.index)⟩ r.number =
        (OrdMap.find? ⟨entries⟩ r.number).map Usage.index := by
    induction entries with
    | nil => rfl
    | cons head rest ih =>
      by_cases here : head.1 = r.number
      · simp [OrdMap.find?, here]
      · simpa [OrdMap.find?, here] using ih
  exact mapped k.walk.usage.entries

theorem get_of_lt {k : Kernel} {n : Nat} (early : n < k.walk.store.size) :
    (Liveness.ofKernel k).store.get n = (settledStore k).get n := by
  have small : n < (settledStore k).intervals.length := by
    rw [← (settledStore_get k).1] at early
    exact early
  simp [IntervalStore.get, ofKernel_intervals, List.getElem?_append_left small]

theorem get_of_ge {k : Kernel} {n : Nat} (late : k.walk.store.size ≤ n)
    (held : n < (Liveness.ofKernel k).store.size) :
    ∃ m, (keptHoles k)[m]? = some ((Liveness.ofKernel k).store.get n) ∧
      n = k.walk.store.size + m := by
  have before : (settledStore k).intervals.length = k.walk.store.size := (settledStore_get k).1
  have small : n - k.walk.store.size < (keptHoles k).length := by
    rw [IntervalStore.size, ofKernel_intervals, List.length_append, before] at held
    omega
  refine ⟨n - k.walk.store.size, ?_, by omega⟩
  simp only [IntervalStore.get, ofKernel_intervals, List.getD_eq_getElem?_getD]
  rw [List.getElem?_append_right (by omega), before, List.getElem?_eq_getElem small]
  rfl

theorem intervalOf_ofKernel (k : Kernel) (r : VReg) :
    (Liveness.ofKernel k).intervalOf? r = (k.walk.usage.find? r.number).map (settled k) := by
  rw [Liveness.intervalOf?, indexOf_ofKernel, Option.map_map]
  apply Option.map_congr
  intro u known
  have early := ((walk_walked k).tracks.used r u known).index
  exact (get_of_lt early).trans ((settledStore_get k).2 r u known)

/-- A register in use has one interval, which covers all its accesses and is large enough for each. -/
structure Covers (k : Kernel) (r : VReg) (iv : Interval) : Prop where
  reg : iv.reg = r
  live : iv.hole = false
  used : ∃ a ∈ accesses k, a.operand.reg = r
  within : ∀ a ∈ accesses k, a.operand.reg = r → iv.min ≤ a.position ∧ a.position ≤ iv.max
  size : ∀ a ∈ accesses k, a.operand.reg = r →
    a.operand.storage (k.widthOf a.instruction) ≤ iv.size
  attained : ∃ a ∈ accesses k, a.operand.reg = r ∧
    iv.size = a.operand.storage (k.widthOf a.instruction)
  triple : iv.triple = true ↔ ∃ a ∈ accesses k, a.operand.reg = r ∧ a.instruction.op.isThreeSource = true

theorem settled_covers {k : Kernel} {r : VReg} {u : Usage}
    (found : k.walk.usage.find? r.number = some u) : Covers k r (settled k u) := by
  have tracked := (walk_walked k).tracks.used r u found
  have wide := (widened_settle k u (k.walk.store.get u.index)).trans
    (widened_widen k k.loops (Liveness.settle k u (k.walk.store.get u.index)))
  have size : (settled k u).size = (k.walk.store.get u.index).size := wide.size
  have triple : (settled k u).triple = (k.walk.store.get u.index).triple := wide.triple
  refine ⟨wide.reg.trans tracked.reg, wide.hole.trans tracked.live, ?_, ?_, ?_, ?_, ?_⟩
  · obtain ⟨a, member, named, -⟩ := tracked.last
    exact ⟨a, member, named⟩
  · intro a member named
    have least := tracked.first a member named
    have latest := tracked.latest a member named
    have stop := tracked.stop
    have low := wide.min
    have high := wide.max
    change (settled k u).min ≤ (k.walk.store.get u.index).min at low
    change (k.walk.store.get u.index).max ≤ (settled k u).max at high
    omega
  · intro a member named
    rw [size]
    exact tracked.size a member named
  · rw [size]
    exact tracked.attained
  · rw [triple, tracked.tally.triple]
    simp [accesses]

theorem indexOf_covers {k : Kernel} {r : VReg} {n : Nat}
    (found : (Liveness.ofKernel k).indexOf? r = some n) :
    n < (Liveness.ofKernel k).store.size ∧ Covers k r ((Liveness.ofKernel k).store.get n) := by
  rw [indexOf_ofKernel] at found
  obtain ⟨u, known, rfl⟩ := Option.map_eq_some_iff.mp found
  have early := ((walk_walked k).tracks.used r u known).index
  refine ⟨?_, ?_⟩
  · have before : (settledStore k).intervals.length = k.walk.store.size := (settledStore_get k).1
    rw [IntervalStore.size, ofKernel_intervals, List.length_append]
    omega
  · rw [get_of_lt early, (settledStore_get k).2 r u known]
    exact settled_covers known

theorem access_indexed {k : Kernel} {a : Access} (member : a ∈ accesses k) :
    ∃ n, (Liveness.ofKernel k).indexOf? a.operand.reg = some n := by
  rw [indexOf_ofKernel]
  cases known : k.walk.usage.find? a.operand.reg.number with
  | none => exact absurd rfl ((walk_walked k).tracks.unused _ known a member)
  | some u => exact ⟨u.index, rfl⟩

/-- Every interval of a kernel is that of a register in use, or a hole. -/
theorem live_or_hole {k : Kernel} {n : Nat} (held : n < (Liveness.ofKernel k).store.size) :
    (Liveness.ofKernel k).indexOf? ((Liveness.ofKernel k).store.get n).reg = some n ∨
      IsHole k ((Liveness.ofKernel k).store.get n) := by
  by_cases early : n < k.walk.store.size
  · left
    obtain ⟨r, u, known, rfl⟩ := (walk_walked k).tracks.covered n early
    have found : (Liveness.ofKernel k).indexOf? r = some u.index := by
      rw [indexOf_ofKernel, known]
      rfl
    rw [(indexOf_covers found).2.reg, found]
  · right
    obtain ⟨m, at_, -⟩ := get_of_ge (by omega) held
    exact (walk_walked k).holes _ (List.mem_filter.mp (List.mem_of_getElem? at_)).1

/-- A hole lies inside its owner's interval. -/
theorem IsHole.owner {k : Kernel} {h : Interval} (isHole : IsHole k h) :
    ∃ n, (Liveness.ofKernel k).indexOf? h.reg = some n ∧
      ((Liveness.ofKernel k).store.get n).min ≤ h.min ∧
      h.max ≤ ((Liveness.ofKernel k).store.get n).max := by
  obtain ⟨a, member, named, start⟩ := isHole.start
  obtain ⟨position, i, d, held, dst, names, -, stop⟩ := isHole.stop
  obtain ⟨n, found⟩ := access_indexed member
  rw [named] at found
  have covers := (indexOf_covers found).2
  have redefined : (⟨position, i, d⟩ : Access) ∈ accesses k :=
    mem_accesses.mpr ⟨held, by simp [Instruction.registers, dst]⟩
  refine ⟨n, found, ?_, ?_⟩
  · rw [start]
    exact (covers.within a member named).1
  · rw [stop]
    exact (covers.within _ redefined names).2

/-- Two holes of one register share at most an end. -/
theorem holes_apart {k : Kernel} {m n : Nat} (heldM : m < (Liveness.ofKernel k).store.size)
    (heldN : n < (Liveness.ofKernel k).store.size)
    (holeM : ((Liveness.ofKernel k).store.get m).hole = true)
    (holeN : ((Liveness.ofKernel k).store.get n).hole = true) (differs : m ≠ n)
    (same : ((Liveness.ofKernel k).store.get m).reg = ((Liveness.ofKernel k).store.get n).reg) :
    ((Liveness.ofKernel k).store.get m).max ≤ ((Liveness.ofKernel k).store.get n).min ∨
      ((Liveness.ofKernel k).store.get n).max ≤ ((Liveness.ofKernel k).store.get m).min := by
  have late {n : Nat} (held : n < (Liveness.ofKernel k).store.size)
      (hole : ((Liveness.ofKernel k).store.get n).hole = true) : k.walk.store.size ≤ n := by
    refine Nat.not_lt.mp fun early => ?_
    obtain ⟨r, u, known, rfl⟩ := (walk_walked k).tracks.covered n early
    rw [get_of_lt early, (settledStore_get k).2 r u known, (settled_covers known).live] at hole
    cases hole
  obtain ⟨i, atM, rfl⟩ := get_of_ge (late heldM holeM) heldM
  obtain ⟨j, atN, rfl⟩ := get_of_ge (late heldN holeN) heldN
  have isHole {h : Interval} {i : Nat} (at_ : (keptHoles k)[i]? = some h) : IsHole k h :=
    (walk_walked k).holes h (List.mem_filter.mp (List.mem_of_getElem? at_)).1
  have ascending : (keptHoles k).Pairwise fun h h' => h.max < h'.max :=
    List.Pairwise.sublist List.filter_sublist (walk_walked k).ascending
  generalize (Liveness.ofKernel k).store.get (k.walk.store.size + i) = h at *
  generalize (Liveness.ofKernel k).store.get (k.walk.store.size + j) = h' at *
  have stops : h.max ≠ h'.max := by
    obtain ⟨smallI, rfl⟩ := List.getElem?_eq_some_iff.mp atM
    obtain ⟨smallJ, rfl⟩ := List.getElem?_eq_some_iff.mp atN
    rcases Nat.lt_or_gt_of_ne (fun e : i = j => differs (by rw [e])) with before | after
    · exact Int.ne_of_lt (List.pairwise_iff_getElem.mp ascending i j smallI smallJ before)
    · exact (Int.ne_of_lt (List.pairwise_iff_getElem.mp ascending j i smallJ smallI after)).symm
  have touch {h h' : Interval} (a : IsHole k h) (b : IsHole k h') (same : h.reg = h'.reg) :
      (h.min ≤ h'.min ∨ h'.max ≤ h.min) ∧ (h.max ≤ h'.min ∨ h'.max ≤ h.max) := by
    obtain ⟨x, member, named, start⟩ := a.start
    obtain ⟨position, i, d, held, dst, names, -, stop⟩ := a.stop
    have redefined : (⟨position, i, d⟩ : Access) ∈ accesses k :=
      mem_accesses.mpr ⟨held, by simp [Instruction.registers, dst]⟩
    rw [start, stop]
    exact ⟨b.untouched x member (named.trans same), b.untouched _ redefined (names.trans same)⟩
  have one := touch (isHole atM) (isHole atN) same
  have other := touch (isHole atN) (isHole atM) same.symm
  have gap := (isHole atM).gap
  have gap' := (isHole atN).gap
  omega

end GpuCodegen.LiveIntervals
