import GpuCodegen.Proofs.OrderedMap
import GpuCodegen.Registers.FreePool

/-! The free pool as a set of bytes: taking a range removes exactly its bytes, giving it back adds
exactly them, and what an allocation returns was free. -/

namespace GpuCodegen.FreePool

/-- A byte lies in a range given by its start and length. -/
def InRange (offset size : UInt32) (x : Nat) : Prop :=
  offset.toNat ≤ x ∧ x < offset.toNat + size.toNat

/-- A byte lies in one of the blocks. -/
def IsFreeIn (free : OrdMap UInt32) (x : Nat) : Prop := ∃ b ∈ free.entries, InRange b.1 b.2 x

/-- Nonempty blocks inside a window that share no byte. -/
structure Blocks (base limit : Nat) (free : OrdMap UInt32) : Prop where
  ordered : free.Ordered
  nonempty : ∀ b ∈ free.entries, 0 < b.2.toNat
  inside : ∀ b ∈ free.entries, base ≤ b.1.toNat ∧ b.1.toNat + b.2.toNat ≤ limit
  apart : ∀ a ∈ free.entries, ∀ b ∈ free.entries, a.1 < b.1 → a.1.toNat + a.2.toNat ≤ b.1.toNat

/-- The free bytes of a pool. -/
def IsFree (p : FreePool) (x : Nat) : Prop := IsFreeIn p.free x

/-- The pool's blocks share no byte and lie in its window. -/
def WellFormed (p : FreePool) : Prop := Blocks p.base.toNat p.limit.toNat p.free

theorem toNat_add {a b : UInt32} (small : a.toNat + b.toNat < 4294967296) :
    (a + b).toNat = a.toNat + b.toNat := by
  rw [UInt32.toNat_add]
  exact Nat.mod_eq_of_lt small

theorem blocks_empty (base limit : Nat) : Blocks base limit .empty :=
  ⟨OrdMap.ordered_empty, nofun, nofun, nofun⟩

theorem Blocks.eq_of_key {base limit : Nat} {free : OrdMap UInt32} (blocks : Blocks base limit free)
    {a b : UInt32 × UInt32} (memberA : a ∈ free.entries) (memberB : b ∈ free.entries)
    (same : a.1 = b.1) : a = b := by
  have foundA := (OrdMap.find?_eq_some blocks.ordered).mpr (show (a.1, a.2) ∈ free.entries from memberA)
  have foundB := (OrdMap.find?_eq_some blocks.ordered).mpr (show (b.1, b.2) ∈ free.entries from memberB)
  rw [same, foundB] at foundA
  exact Prod.ext same (Option.some.inj foundA).symm

theorem Blocks.erase {base limit : Nat} {free : OrdMap UInt32} (blocks : Blocks base limit free)
    (key : UInt32) : Blocks base limit (free.erase key) where
  ordered := OrdMap.ordered_erase blocks.ordered key
  nonempty b member := blocks.nonempty b (OrdMap.mem_erase.mp member).1
  inside b member := blocks.inside b (OrdMap.mem_erase.mp member).1
  apart a memberA b memberB := blocks.apart a (OrdMap.mem_erase.mp memberA).1 b
    (OrdMap.mem_erase.mp memberB).1

/-- Erasing a block frees its bytes and no others. -/
theorem Blocks.isFree_erase {base limit : Nat} {free : OrdMap UInt32}
    (blocks : Blocks base limit free) {b : UInt32 × UInt32} (member : b ∈ free.entries) (x : Nat) :
    IsFreeIn (free.erase b.1) x ↔ IsFreeIn free x ∧ ¬ InRange b.1 b.2 x := by
  constructor
  · rintro ⟨a, kept, here⟩
    obtain ⟨memberA, differs⟩ := OrdMap.mem_erase.mp kept
    refine ⟨⟨a, memberA, here⟩, fun there => ?_⟩
    unfold InRange at here there
    rcases UInt32.lt_or_lt_of_ne differs with before | after
    · have gap := blocks.apart a memberA b member before
      omega
    · have gap := blocks.apart b member a memberA after
      omega
  · rintro ⟨⟨a, memberA, here⟩, outside⟩
    refine ⟨a, OrdMap.mem_erase.mpr ⟨memberA, fun same => outside ?_⟩, here⟩
    rw [← blocks.eq_of_key memberA member same]
    exact here

/-- A block is added where nothing is free. -/
theorem Blocks.insert {base limit : Nat} {free : OrdMap UInt32} (blocks : Blocks base limit free)
    (offset size : UInt32) (positive : 0 < size.toNat) (low : base ≤ offset.toNat)
    (high : offset.toNat + size.toNat ≤ limit) (taken : ∀ x, InRange offset size x → ¬ IsFreeIn free x) :
    Blocks base limit (free.insert offset size) ∧
      ∀ x, IsFreeIn (free.insert offset size) x ↔ IsFreeIn free x ∨ InRange offset size x := by
  have other (e : UInt32 × UInt32) (member : e ∈ free.entries) : e.1 ≠ offset := by
    intro same
    refine taken offset.toNat ⟨Nat.le_refl _, by omega⟩ ⟨e, member, ?_⟩
    have nonempty := blocks.nonempty e member
    unfold InRange
    rw [same]
    omega
  have below (e : UInt32 × UInt32) (member : e ∈ free.entries) (before : e.1 < offset) :
      e.1.toNat + e.2.toNat ≤ offset.toNat := by
    refine Nat.not_lt.mp fun inside => ?_
    refine taken offset.toNat ⟨Nat.le_refl _, by omega⟩ ⟨e, member, ?_⟩
    have start := UInt32.lt_iff_toNat_lt.mp before
    unfold InRange
    omega
  have above (e : UInt32 × UInt32) (member : e ∈ free.entries) (after : offset < e.1) :
      offset.toNat + size.toNat ≤ e.1.toNat := by
    refine Nat.not_lt.mp fun inside => ?_
    have start := UInt32.lt_iff_toNat_lt.mp after
    have nonempty := blocks.nonempty e member
    refine taken e.1.toNat ⟨by omega, inside⟩ ⟨e, member, ?_⟩
    unfold InRange
    omega
  refine ⟨⟨OrdMap.ordered_insert blocks.ordered _ _, ?_, ?_, ?_⟩, ?_⟩
  · intro b member
    rcases (OrdMap.mem_insert blocks.ordered).mp member with rfl | ⟨old, -⟩
    · exact positive
    · exact blocks.nonempty b old
  · intro b member
    rcases (OrdMap.mem_insert blocks.ordered).mp member with rfl | ⟨old, -⟩
    · exact ⟨low, high⟩
    · exact blocks.inside b old
  · intro a memberA b memberB ascending
    rcases (OrdMap.mem_insert blocks.ordered).mp memberA with rfl | ⟨oldA, -⟩
    · rcases (OrdMap.mem_insert blocks.ordered).mp memberB with rfl | ⟨oldB, -⟩
      · exact absurd ascending (UInt32.lt_irrefl _)
      · exact above b oldB ascending
    · rcases (OrdMap.mem_insert blocks.ordered).mp memberB with rfl | ⟨oldB, -⟩
      · exact below a oldA ascending
      · exact blocks.apart a oldA b oldB ascending
  · intro x
    constructor
    · rintro ⟨b, member, here⟩
      rcases (OrdMap.mem_insert blocks.ordered).mp member with rfl | ⟨old, -⟩
      · exact .inr here
      · exact .inl ⟨b, old, here⟩
    · rintro (⟨b, member, here⟩ | here)
      · exact ⟨b, (OrdMap.mem_insert blocks.ordered).mpr (.inr ⟨member, other b member⟩), here⟩
      · exact ⟨(offset, size), (OrdMap.mem_insert blocks.ordered).mpr (.inl rfl), here⟩

/-- The block that holds a nonempty range is the one found below its start. -/
theorem Blocks.floor_of_holds {base limit : Nat} {free : OrdMap UInt32}
    (blocks : Blocks base limit free) {b : UInt32 × UInt32} (member : b ∈ free.entries)
    {offset size : UInt32} (positive : 0 < size.toNat) (low : b.1.toNat ≤ offset.toNat)
    (high : offset.toNat + size.toNat ≤ b.1.toNat + b.2.toNat) : free.floor? offset = some b := by
  cases found : free.floor? offset with
  | none =>
    have above := UInt32.lt_iff_toNat_lt.mp (OrdMap.floor?_eq_none found b member)
    omega
  | some e =>
    obtain ⟨memberE, below, nearest⟩ := OrdMap.floor?_eq_some blocks.ordered found
    have least := UInt32.le_iff_toNat_le.mp (nearest b member (UInt32.le_iff_toNat_le.mpr low))
    have most := UInt32.le_iff_toNat_le.mp below
    by_cases same : b.1 = e.1
    · rw [blocks.eq_of_key member memberE same]
    · have differs : b.1.toNat ≠ e.1.toNat := fun h => same (UInt32.toNat_inj.mp h)
      have gap := blocks.apart b member e memberE (UInt32.lt_iff_toNat_lt.mpr (by omega))
      omega

/-- A range inside a free block. -/
def Fits (p : FreePool) (offset size : UInt32) : Prop :=
  ∃ b ∈ p.free.entries, b.1.toNat ≤ offset.toNat ∧
    offset.toNat + size.toNat ≤ b.1.toNat + b.2.toNat

theorem Fits.isFree {p : FreePool} {offset size : UInt32} (fits : p.Fits offset size) {x : Nat}
    (here : InRange offset size x) : p.IsFree x := by
  obtain ⟨b, member, low, high⟩ := fits
  refine ⟨b, member, ?_⟩
  unfold InRange at here ⊢
  omega

/-- The rest of a block is added back unless it is empty. -/
theorem Blocks.insertRest {base limit : Nat} {free : OrdMap UInt32} (blocks : Blocks base limit free)
    (offset stop : UInt32) (ascending : offset.toNat ≤ stop.toNat) (low : base ≤ offset.toNat)
    (high : stop.toNat ≤ limit)
    (taken : ∀ x, offset.toNat ≤ x → x < stop.toNat → ¬ IsFreeIn free x) :
    Blocks base limit (if offset < stop then free.insert offset (stop - offset) else free) ∧
      ∀ x, IsFreeIn (if offset < stop then free.insert offset (stop - offset) else free) x ↔
        IsFreeIn free x ∨ (offset.toNat ≤ x ∧ x < stop.toNat) := by
  have size := UInt32.toNat_sub_of_le stop offset (UInt32.le_iff_toNat_le.mpr ascending)
  by_cases more : offset < stop
  · have before := UInt32.lt_iff_toNat_lt.mp more
    obtain ⟨blocks', same⟩ := blocks.insert offset (stop - offset)
      (by omega) low (by omega) fun x here => taken x here.1 (by unfold InRange at here; omega)
    rw [if_pos more]
    refine ⟨blocks', fun x => ?_⟩
    rw [same x, InRange, size]
    have bounds : x < offset.toNat + (stop.toNat - offset.toNat) ↔ x < stop.toNat := by omega
    rw [bounds]
  · have equal : ¬ offset.toNat < stop.toNat := fun h => more (UInt32.lt_iff_toNat_lt.mpr h)
    rw [if_neg more]
    refine ⟨blocks, fun x => ⟨.inl, fun here => ?_⟩⟩
    rcases here with old | ⟨least, most⟩
    · exact old
    · omega

/-- What is left of the block that holds a range: the part before the range and the part after it. -/
theorem take_free {p : FreePool} (wf : p.WellFormed) {b : UInt32 × UInt32}
    (member : b ∈ p.free.entries) {offset size : UInt32} (positive : 0 < size.toNat)
    (low : b.1.toNat ≤ offset.toNat) (high : offset.toNat + size.toNat ≤ b.1.toNat + b.2.toNat) :
    (p.take offset size).free = (if offset + size < b.1 + b.2 then
      (if b.1 < offset then (p.free.erase b.1).insert b.1 (offset - b.1) else p.free.erase b.1).insert
        (offset + size) (b.1 + b.2 - (offset + size))
      else if b.1 < offset then (p.free.erase b.1).insert b.1 (offset - b.1) else p.free.erase b.1) := by
  simp only [take, Blocks.floor_of_holds wf member positive low high, Option.getD_some]

/-- Taking a free range leaves the other free bytes. -/
theorem take_spec {p : FreePool} (wf : p.WellFormed) {offset size : UInt32}
    (positive : 0 < size.toNat) (fits : p.Fits offset size) :
    (p.take offset size).WellFormed ∧
      ∀ x, (p.take offset size).IsFree x ↔ p.IsFree x ∧ ¬ InRange offset size x := by
  obtain ⟨b, member, low, high⟩ := fits
  obtain ⟨bottom, top⟩ := Blocks.inside wf b member
  have bound := p.limit.toNat_lt
  have blockEnd : (b.1 + b.2).toNat = b.1.toNat + b.2.toNat := toNat_add (by omega)
  have rangeEnd : (offset + size).toNat = offset.toNat + size.toNat := toNat_add (by omega)
  have erased := Blocks.isFree_erase wf member
  obtain ⟨before, freeBefore⟩ := (Blocks.erase wf b.1).insertRest b.1 offset low
    bottom (by omega) fun x least most free => ((erased x).mp free).2 ⟨least, by omega⟩
  obtain ⟨after, freeAfter⟩ := before.insertRest (offset + size) (b.1 + b.2)
    (by omega) (by omega) (by omega) fun x least most free => by
      rcases (freeBefore x).mp free with old | ⟨_, _⟩
      · exact ((erased x).mp old).2 ⟨by omega, by omega⟩
      · omega
  have shape := take_free wf member positive low high
  refine ⟨?_, fun x => ?_⟩
  · unfold WellFormed
    rw [shape]
    exact after
  · unfold IsFree
    rw [shape, freeAfter x, freeBefore x, erased x]
    have held : InRange b.1 b.2 x → IsFreeIn p.free x := fun here => ⟨b, member, here⟩
    unfold InRange at held ⊢
    constructor
    · rintro ((⟨free, outside⟩ | ⟨least, most⟩) | ⟨least, most⟩)
      · exact ⟨free, by omega⟩
      · exact ⟨held (by omega), by omega⟩
      · exact ⟨held (by omega), by omega⟩
    · rintro ⟨free, outside⟩
      by_cases inBlock : b.1.toNat ≤ x ∧ x < b.1.toNat + b.2.toNat
      · by_cases early : x < offset.toNat
        · exact .inl (.inr ⟨inBlock.1, early⟩)
        · exact .inr ⟨by omega, by omega⟩
      · exact .inl (.inl ⟨free, inBlock⟩)

/-- A claimed range was free. -/
theorem claim_spec {p p' : FreePool} (wf : p.WellFormed) {offset size : UInt32}
    (small : offset.toNat + size.toNat < 4294967296) (claimed : p.claim offset size = some p') :
    p.Fits offset size ∧ p' = p.take offset size := by
  unfold claim at claimed
  split at claimed
  · cases claimed
  · rename_i start length found
    split at claimed
    · cases claimed
    · rename_i enough
      obtain ⟨member, below, -⟩ := OrdMap.floor?_eq_some wf.ordered found
      obtain ⟨-, top⟩ := Blocks.inside wf _ member
      simp only at top below
      have bound := p.limit.toNat_lt
      have blockEnd : (start + length).toNat = start.toNat + length.toNat := toNat_add (by omega)
      have rangeEnd : (offset + size).toNat = offset.toNat + size.toNat := toNat_add small
      have most : ¬ (start + length).toNat < (offset + size).toNat := fun h =>
        enough (UInt32.lt_iff_toNat_lt.mpr h)
      refine ⟨⟨(start, length), member, UInt32.le_iff_toNat_le.mp below, ?_⟩, (Option.some.inj claimed).symm⟩
      change offset.toNat + size.toNat ≤ start.toNat + length.toNat
      omega

theorem alignUp_bounds {v align : UInt32} (positive : 0 < align.toNat)
    (small : v.toNat + align.toNat < 4294967296) :
    v.toNat ≤ (alignUp v align).toNat ∧ (alignUp v align).toNat < v.toNat + align.toNat ∧
      align.toNat ∣ (alignUp v align).toNat := by
  have total := toNat_add small
  have one : (1 : UInt32) ≤ v + align := by
    rw [UInt32.le_iff_toNat_le, total]
    change 1 ≤ v.toNat + align.toNat
    omega
  have sum : (v + align - 1).toNat = v.toNat + (align.toNat - 1) := by
    rw [UInt32.toNat_sub_of_le _ _ one, total]
    change v.toNat + align.toNat - 1 = _
    omega
  have most := Nat.div_mul_le_self (v.toNat + (align.toNat - 1)) align.toNat
  have least := Nat.lt_div_mul_add positive (a := v.toNat + (align.toNat - 1))
  have product : (alignUp v align).toNat =
      (v.toNat + (align.toNat - 1)) / align.toNat * align.toNat := by
    rw [alignUp, UInt32.toNat_mul, UInt32.toNat_div, sum]
    exact Nat.mod_eq_of_lt (by omega)
  rw [product]
  exact ⟨by omega, by omega, Nat.dvd_mul_left _ _⟩

/-- Where the next general register starts. -/
theorem nextRow (start : UInt32) (small : (start.toNat / 32 + 1) * 32 < 4294967296) :
    ((start / 32 + 1) * 32).toNat = (start.toNat / 32 + 1) * 32 := by
  rw [UInt32.toNat_mul, UInt32.toNat_add, UInt32.toNat_div]
  change (start.toNat / 32 + 1) % 4294967296 * 32 % 4294967296 = _
  omega

/-- A search in one block: what it finds lies in the block, from its first start on. -/
theorem findFrom_spec {stop size align start offset : UInt32} {avoid : Option Nat} {steps : Nat}
    (positive : 0 < align.toNat) (narrow : align.toNat ≤ 32)
    (room : stop.toNat + size.toNat + 64 < 4294967296)
    (near : start.toNat ≤ stop.toNat + 63)
    (found : findFrom stop size align avoid steps start = some offset) :
    start.toNat ≤ offset.toNat ∧ offset.toNat + size.toNat ≤ stop.toNat := by
  induction steps generalizing start with
  | zero => cases found
  | succ steps ih =>
    have sum : (start + size).toNat = start.toNat + size.toNat := toNat_add (by omega)
    unfold findFrom at found
    split at found
    · rename_i fits
      have inside := UInt32.le_iff_toNat_le.mp fits
      split at found
      · cases found
        omega
      · have next := nextRow start (by omega)
        obtain ⟨least, most, -⟩ := alignUp_bounds (v := (start / 32 + 1) * 32) positive (by omega)
        have further := ih (by omega) found
        omega
    · cases found

/-- Blocks that end no later than a limit. -/
structure Bounded (limit : Nat) (free : OrdMap UInt32) : Prop where
  ordered : free.Ordered
  inside : ∀ b ∈ free.entries, b.1.toNat + b.2.toNat ≤ limit

/-- What is taken was found, with or without a bank to avoid. -/
theorem allocate_find {p p' : FreePool} {size align offset : UInt32} {avoid : Option Nat}
    (found : p.allocate size align avoid = some (offset, p')) :
    (∃ kept, p.find size align kept = some offset) ∧ p' = p.take offset size := by
  unfold FreePool.allocate at found
  obtain ⟨start, located, same⟩ := Option.map_eq_some_iff.mp found
  cases same
  refine ⟨?_, rfl⟩
  cases preferred : if avoid.isSome then p.find size align avoid else none with
  | none =>
    rw [preferred] at located
    exact ⟨none, located⟩
  | some first =>
    rw [preferred] at located
    cases located
    split at preferred
    · exact ⟨avoid, preferred⟩
    · cases preferred

/-- A range is allocated inside a free block. -/
theorem Bounded.allocate {p p' : FreePool} (bounded : Bounded p.limit.toNat p.free) {size align offset : UInt32}
    {avoid : Option Nat} (positive : 0 < align.toNat) (narrow : align.toNat ≤ 32)
    (room : p.limit.toNat + size.toNat + 64 < 4294967296)
    (found : p.allocate size align avoid = some (offset, p')) :
    p.Fits offset size ∧ p' = p.take offset size := by
  have search {avoid : Option Nat} {offset : UInt32} (found : p.find size align avoid = some offset) :
      p.Fits offset size := by
    unfold find at found
    obtain ⟨b, member, found⟩ := List.exists_of_findSome?_eq_some found
    have top := bounded.inside b member
    have blockEnd : (b.1 + b.2).toNat = b.1.toNat + b.2.toNat := toNat_add (by omega)
    obtain ⟨least, most, -⟩ := alignUp_bounds (v := b.1) positive (by omega)
    have inside := findFrom_spec positive narrow (by omega) (by omega) found
    exact ⟨b, member, by omega, by omega⟩
  obtain ⟨⟨_, found⟩, same⟩ := allocate_find found
  exact ⟨search found, same⟩

theorem allocate_spec {p p' : FreePool} (wf : p.WellFormed) {size align offset : UInt32}
    {avoid : Option Nat} (positive : 0 < align.toNat) (narrow : align.toNat ≤ 32)
    (room : p.limit.toNat + size.toNat + 64 < 4294967296)
    (found : p.allocate size align avoid = some (offset, p')) :
    p.Fits offset size ∧ p' = p.take offset size :=
  Bounded.allocate ⟨wf.ordered, fun b member => (Blocks.inside wf b member).2⟩ positive narrow room found

/-- A range that can be added to the blocks. -/
structure Addable (base limit : Nat) (free : OrdMap UInt32) (offset size : UInt32) : Prop where
  blocks : Blocks base limit free
  positive : 0 < size.toNat
  low : base ≤ offset.toNat
  high : offset.toNat + size.toNat ≤ limit
  taken : ∀ x, InRange offset size x → ¬ IsFreeIn free x

/-- A range takes in a block of the pool when the two make up one range. -/
theorem Addable.absorb {base limit : Nat} {free : OrdMap UInt32}
    {offset size start length offset' size' : UInt32} (addable : Addable base limit free offset size)
    (member : (start, length) ∈ free.entries) (low : base ≤ offset'.toNat)
    (high : offset'.toNat + size'.toNat ≤ limit) (positive : 0 < size'.toNat)
    (union : ∀ x, InRange offset' size' x ↔ InRange start length x ∨ InRange offset size x) :
    Addable base limit (free.erase start) offset' size' ∧
      ∀ x, IsFreeIn (free.erase start) x ∨ InRange offset' size' x ↔
        IsFreeIn free x ∨ InRange offset size x := by
  have erased := addable.blocks.isFree_erase member
  refine ⟨⟨addable.blocks.erase start, positive, low, high, ?_⟩, ?_⟩
  · intro x here free
    obtain ⟨wasFree, outside⟩ := (erased x).mp free
    rcases (union x).mp here with inBlock | inRange
    · exact outside inBlock
    · exact addable.taken x inRange wasFree
  · intro x
    rw [union, show IsFreeIn (free.erase start) x ↔ _ from erased x]
    constructor
    · rintro (⟨wasFree, -⟩ | inBlock | inRange)
      · exact .inl wasFree
      · exact .inl ⟨_, member, inBlock⟩
      · exact .inr inRange
    · rintro (wasFree | inRange)
      · by_cases inBlock : InRange start length x
        · exact .inr (.inl inBlock)
        · exact .inl ⟨wasFree, inBlock⟩
      · exact .inr (.inr inRange)

/-- Joining moves a block before the range from the blocks to the range. -/
theorem joinBefore_spec {base limit : Nat} {free free' : OrdMap UInt32}
    {offset size offset' size' : UInt32} (bound : limit < 4294967296)
    (addable : Addable base limit free offset size)
    (joined : joinBefore free offset size = (free', offset', size')) :
    Addable base limit free' offset' size' ∧
      ∀ x, IsFreeIn free' x ∨ InRange offset' size' x ↔ IsFreeIn free x ∨ InRange offset size x := by
  have blocks := addable.blocks
  have positive := addable.positive
  have low := addable.low
  have high := addable.high
  unfold joinBefore at joined
  split at joined
  · rename_i start length found
    obtain ⟨member, below, -⟩ := OrdMap.floor?_eq_some blocks.ordered found
    obtain ⟨bottom, top⟩ := blocks.inside _ member
    simp only at bottom top below
    split at joined
    · rename_i meets
      simp only [Prod.mk.injEq] at joined
      obtain ⟨rfl, rfl, rfl⟩ := joined
      have blockEnd : (start + length).toNat = start.toNat + length.toNat := toNat_add (by omega)
      have offsetAt : offset.toNat = start.toNat + length.toNat := by rw [← blockEnd, meets]
      have total : (length + size).toNat = length.toNat + size.toNat := toNat_add (by omega)
      refine addable.absorb member bottom (by omega) (by omega) ?_
      intro x
      unfold InRange
      omega
    · cases joined
      exact ⟨addable, fun x => Iff.rfl⟩
  · cases joined
    exact ⟨addable, fun x => Iff.rfl⟩

/-- Joining moves a block after the range from the blocks to the range. -/
theorem joinAfter_spec {base limit : Nat} {free free' : OrdMap UInt32} {offset size size' : UInt32}
    (bound : limit < 4294967296) (addable : Addable base limit free offset size)
    (joined : joinAfter free offset size = (free', size')) :
    Addable base limit free' offset size' ∧
      ∀ x, IsFreeIn free' x ∨ InRange offset size' x ↔ IsFreeIn free x ∨ InRange offset size x := by
  have blocks := addable.blocks
  have positive := addable.positive
  have low := addable.low
  have high := addable.high
  unfold joinAfter at joined
  split at joined
  · rename_i start length found
    obtain ⟨member, -, -⟩ := OrdMap.ceiling?_eq_some blocks.ordered found
    obtain ⟨bottom, top⟩ := blocks.inside _ member
    simp only at bottom top
    split at joined
    · rename_i meets
      simp only [Prod.mk.injEq] at joined
      obtain ⟨rfl, rfl⟩ := joined
      have rangeEnd : (offset + size).toNat = offset.toNat + size.toNat := toNat_add (by omega)
      have startAt : start.toNat = offset.toNat + size.toNat := by rw [← rangeEnd, meets]
      have total : (size + length).toNat = size.toNat + length.toNat := toNat_add (by omega)
      refine addable.absorb member low (by omega) (by omega) ?_
      intro x
      unfold InRange
      omega
    · cases joined
      exact ⟨addable, fun x => Iff.rfl⟩
  · cases joined
    exact ⟨addable, fun x => Iff.rfl⟩

/-- Giving a range back adds its bytes to the free ones. -/
theorem release_spec {p : FreePool} (wf : p.WellFormed) {offset size : UInt32}
    (positive : 0 < size.toNat) (low : p.base.toNat ≤ offset.toNat)
    (high : offset.toNat + size.toNat ≤ p.limit.toNat) (taken : ∀ x, InRange offset size x → ¬ p.IsFree x) :
    (p.release offset size).WellFormed ∧
      ∀ x, (p.release offset size).IsFree x ↔ p.IsFree x ∨ InRange offset size x := by
  have bound := p.limit.toNat_lt
  cases before : joinBefore p.free offset size with
  | mk free₁ rest =>
    obtain ⟨offset₁, size₁⟩ := rest
    obtain ⟨addable₁, same₁⟩ := joinBefore_spec bound ⟨wf, positive, low, high, taken⟩ before
    cases after : joinAfter free₁ offset₁ size₁ with
    | mk free₂ size₂ =>
      obtain ⟨addable₂, same₂⟩ := joinAfter_spec bound addable₁ after
      obtain ⟨blocks, same₃⟩ := addable₂.blocks.insert offset₁ size₂ addable₂.positive addable₂.low
        addable₂.high addable₂.taken
      have shape : (p.release offset size).free = free₂.insert offset₁ size₂ := by
        simp only [release, before, after]
      refine ⟨?_, fun x => ?_⟩
      · unfold WellFormed
        rw [shape]
        exact blocks
      · unfold IsFree
        rw [shape, same₃ x, same₂ x, same₁ x]

theorem new_wellFormed (base limit : UInt32) : (new base limit).WellFormed ∧
    ∀ x, (new base limit).IsFree x → base.toNat ≤ x ∧ x < limit.toNat := by
  unfold new WellFormed IsFree
  by_cases window : base < limit
  · have ascending := UInt32.lt_iff_toNat_lt.mp window
    have size := UInt32.toNat_sub_of_le limit base (UInt32.le_of_lt window)
    obtain ⟨blocks, same⟩ := (blocks_empty base.toNat limit.toNat).insert base (limit - base)
      (by omega) (Nat.le_refl _) (by omega) (by rintro x - ⟨b, member, -⟩; cases member)
    simp only [window, ↓reduceIte]
    refine ⟨blocks, fun x free => ?_⟩
    rcases (same x).mp free with ⟨b, member, -⟩ | here
    · cases member
    · unfold InRange at here
      omega
  · simp only [window, ↓reduceIte]
    refine ⟨blocks_empty _ _, ?_⟩
    rintro x ⟨b, member, -⟩
    cases member

end GpuCodegen.FreePool
