import Mathlib.Order.Bounds.Basic
import GpuCodegen.Proofs.MergedBlocks

/-! The pool allocates first fit: of the aligned offsets whose range is free it takes the lowest outside
the avoided bank, or the lowest of all where no such offset is left, and it fails only when there is none.
The search computes offsets in 32 bits; it is right as long as none of its sums and products wraps
around. A pool that reaches to the end of the address space can wrap the product that leads to the next
general register without any sum wrapping, and then the search starts again from zero. -/

namespace GpuCodegen.FreePool

/-- The aligned offsets where a free range of a size starts. -/
def freeStarts (p : FreePool) (size align : UInt32) : Set ℕ :=
  {o | align.toNat ∣ o ∧ ∀ x, o ≤ x → x < o + size.toNat → p.IsFree x}

/-- The offsets outside a bank, or all of them. -/
def outside (avoid : Option Nat) : Set ℕ := {o | avoid ≠ some (o / 32 % 2)}

/-- The search of one block. -/
def searchBlock (size align : UInt32) (avoid : Option Nat) (b : UInt32 × UInt32) : Option UInt32 :=
  findFrom (b.1 + b.2) size align avoid searchSteps (alignUp b.1 align)

/-- The search of a pool comes to a block when the blocks below it have nothing. -/
def Reaches (p : FreePool) (size align : UInt32) (avoid : Option Nat) (b : UInt32 × UInt32) : Prop :=
  ∃ before after, p.free.entries = before ++ b :: after ∧
    ∀ a ∈ before, searchBlock size align avoid a = none

/-- The starts a search comes to in a block: first its lowest aligned offset, and after one in the avoided
bank the lowest aligned offset of the general registers above. -/
inductive Visits (p : FreePool) (size align : UInt32) (avoid : Option Nat) (b : UInt32 × UInt32) :
    UInt32 → Prop
  | first : p.Reaches size align avoid b → Visits p size align avoid b (alignUp b.1 align)
  | next {start : UInt32} : Visits p size align avoid b start → start + size ≤ b.1 + b.2 →
      avoids avoid start = false → Visits p size align avoid b (alignUp ((start / 32 + 1) * 32) align)

/-- No sum of a search wraps around. -/
structure SumsFit (p : FreePool) (size align : UInt32) (avoid : Option Nat) : Prop where
  first : ∀ b, p.Reaches size align avoid b → b.1.toNat + align.toNat < 4294967296
  stop : ∀ b start, p.Visits size align avoid b start → start.toNat + size.toNat < 4294967296
  next : ∀ b start, p.Visits size align avoid b start → start + size ≤ b.1 + b.2 →
    avoids avoid start = false → ((start / 32 + 1) * 32).toNat + align.toNat < 4294967296

/-- No product that leads a search to the next general register wraps around. -/
def ProductsFit (p : FreePool) (size align : UInt32) (avoid : Option Nat) : Prop :=
  ∀ b start, p.Visits size align avoid b start → start + size ≤ b.1 + b.2 →
    avoids avoid start = false → (start.toNat / 32 + 1) * 32 < 4294967296

/-- A search result is the least offset of a set, or nothing for the empty set. -/
def IsFirst (s : Set ℕ) : Option UInt32 → Prop
  | some o => IsLeast s o.toNat
  | none => s = ∅

/-- The pools that come of a fresh one by taking ranges and giving taken ones back. -/
inductive Reachable (base limit : UInt32) : FreePool → Prop
  | new : Reachable base limit (new base limit)
  | allocate {p p' : FreePool} {size align offset : UInt32} {avoid : Option Nat} :
      Reachable base limit p → 0 < size.toNat → 0 < align.toNat → p.SumsFit size align avoid →
      p.ProductsFit size align avoid → p.allocate size align avoid = some (offset, p') →
      Reachable base limit p'
  | claim {p p' : FreePool} {offset size : UInt32} :
      Reachable base limit p → 0 < size.toNat → offset.toNat + size.toNat < 4294967296 →
      p.claim offset size = some p' → Reachable base limit p'
  | release {p : FreePool} {offset size : UInt32} :
      Reachable base limit p → 0 < size.toNat → (∀ x, InRange offset size x → p.IsTaken x) →
      Reachable base limit (p.release offset size)

section Search

variable {p : FreePool} {size align : UInt32} {avoid : Option Nat}

theorem avoids_iff {start : UInt32} : avoids avoid start = true ↔ start.toNat ∈ outside avoid := by
  have bank : bankOf start = start.toNat / 32 % 2 := by
    unfold bankOf
    rw [UInt32.toNat_div]
    rfl
  simp [avoids, outside, bank]

/-- No aligned offset lies between an offset and the one it is aligned up to. -/
theorem alignUp_least {v : UInt32} {o : Nat} (positive : 0 < align.toNat)
    (small : v.toNat + align.toNat < 4294967296) (aligned : align.toNat ∣ o) (above : v.toNat ≤ o) :
    (alignUp v align).toNat ≤ o := by
  obtain ⟨-, near, multiple⟩ := alignUp_bounds positive small
  refine Nat.not_lt.mp fun below => ?_
  have gap := Nat.le_of_dvd (by omega) (Nat.dvd_sub multiple aligned)
  omega

/-- The offsets a search of a block from some start on may return. -/
def spots (size align : UInt32) (avoid : Option Nat) (b : UInt32 × UInt32) (start : Nat) : Set ℕ :=
  {o | start ≤ o ∧ align.toNat ∣ o ∧ o + size.toNat ≤ (b.1 + b.2).toNat ∧ o ∈ outside avoid}

/-- A search passes over no spot on its way from a start in the avoided bank to the next start. -/
theorem spots_next (size : UInt32) (b : UInt32 × UInt32) {start : UInt32} (positive : 0 < align.toNat)
    (banned : start.toNat ∉ outside avoid) (row : (start.toNat / 32 + 1) * 32 + align.toNat < 4294967296) :
    start.toNat / 32 < (alignUp ((start / 32 + 1) * 32) align).toNat / 32 ∧
      align.toNat ∣ (alignUp ((start / 32 + 1) * 32) align).toNat ∧
      spots size align avoid b start.toNat =
        spots size align avoid b (alignUp ((start / 32 + 1) * 32) align).toNat := by
  have rowStart := nextRow start (by omega)
  obtain ⟨later, -, multiple⟩ := alignUp_bounds (v := (start / 32 + 1) * 32) positive (by omega)
  refine ⟨by omega, multiple, Set.ext fun o => ⟨?_, ?_⟩⟩
  · rintro ⟨above, aligned, ends, outer⟩
    refine ⟨alignUp_least positive (by omega) aligned (Nat.not_lt.mp fun below => ?_), aligned, ends, outer⟩
    -- an offset of the same general register is in the same bank
    have same : o / 32 = start.toNat / 32 := by omega
    unfold outside at outer banned
    rw [Set.mem_ofPred_eq, same] at outer
    exact banned outer
  · rintro ⟨above, rest⟩
    exact ⟨by omega, rest⟩

/-- The search of a block finds its first spot, given a step for every general register above. -/
theorem findFrom_first (positive : 0 < align.toNat) (sums : p.SumsFit size align avoid)
    (products : p.ProductsFit size align avoid) {b : UInt32 × UInt32} {start : UInt32}
    (visited : p.Visits size align avoid b start) (aligned : align.toNat ∣ start.toNat) {steps : Nat}
    (enough : 134217728 ≤ start.toNat / 32 + steps) :
    IsFirst (spots size align avoid b start.toNat)
      (findFrom (b.1 + b.2) size align avoid steps start) := by
  induction steps generalizing start with
  | zero =>
    have bound := start.toNat_lt
    omega
  | succ steps ih =>
    have stop : (start + size).toNat = start.toNat + size.toNat := toNat_add (sums.stop b start visited)
    unfold findFrom
    split
    · rename_i fits
      have inside := UInt32.le_iff_toNat_le.mp fits
      rw [stop] at inside
      split
      · rename_i outer
        exact ⟨⟨Nat.le_refl _, aligned, inside, avoids_iff.mp outer⟩, fun o spot => spot.1⟩
      · rename_i banned
        have inBank : avoids avoid start = false := Bool.eq_false_iff.mpr banned
        have row := products b start visited fits inBank
        have sum := sums.next b start visited fits inBank
        obtain ⟨later, multiple, same⟩ := spots_next size b positive
          (fun outer => banned (avoids_iff.mpr outer)) (nextRow _ row ▸ sum)
        rw [same]
        exact ih (.next visited fits inBank) multiple (by omega)
    · rename_i outer
      refine Set.eq_empty_of_forall_notMem ?_
      rintro o ⟨above, -, ends, -⟩
      refine outer (UInt32.le_iff_toNat_le.mpr ?_)
      omega

/-- The search of a block that is come to finds the first spot of the block. -/
theorem searchBlock_first (positive : 0 < align.toNat) (sums : p.SumsFit size align avoid)
    (products : p.ProductsFit size align avoid) {b : UInt32 × UInt32}
    (reached : p.Reaches size align avoid b) :
    IsFirst (spots size align avoid b b.1.toNat) (searchBlock size align avoid b) := by
  have small := sums.first b reached
  obtain ⟨above, -, multiple⟩ := alignUp_bounds positive small
  have same : spots size align avoid b b.1.toNat =
      spots size align avoid b (alignUp b.1 align).toNat := by
    refine Set.ext fun o => ⟨?_, ?_⟩
    · rintro ⟨low, aligned, rest⟩
      exact ⟨alignUp_least positive small aligned low, aligned, rest⟩
    · rintro ⟨later, rest⟩
      exact ⟨Nat.le_trans above later, rest⟩
  rw [same]
  exact findFrom_first positive sums products (.first reached) multiple
    (by unfold searchSteps; omega)

/-- The offsets of free ranges are the spots of the blocks. -/
theorem mem_freeStarts (wf : p.WellFormed) (merged : Merged p.free) (positive : 0 < size.toNat) {o : Nat} :
    o ∈ p.freeStarts size align ∩ outside avoid ↔
      ∃ b ∈ p.free.entries, o ∈ spots size align avoid b b.1.toNat := by
  have ends (b : UInt32 × UInt32) (member : b ∈ p.free.entries) :
      (b.1 + b.2).toNat = b.1.toNat + b.2.toNat := by
    have bound := p.limit.toNat_lt
    have inside := Blocks.inside wf b member
    exact toNat_add (by omega)
  constructor
  · rintro ⟨⟨aligned, isFree⟩, outer⟩
    obtain ⟨b, member, low, high⟩ := Blocks.holds_free wf merged positive isFree
    exact ⟨b, member, low, aligned, ends b member ▸ high, outer⟩
  · rintro ⟨b, member, low, aligned, high, outer⟩
    rw [ends b member] at high
    refine ⟨⟨aligned, fun x least most => ⟨b, member, ?_⟩⟩, outer⟩
    unfold InRange
    omega

/-- A search that finds nothing has come to every block. -/
theorem reaches_of_none (failed : p.find size align avoid = none) {b : UInt32 × UInt32}
    (listed : b ∈ p.free.entries) : p.Reaches size align avoid b := by
  obtain ⟨before, after, shape⟩ := List.append_of_mem listed
  exact ⟨before, after, shape, fun a early =>
    List.findSome?_eq_none_iff.mp failed a (by simp [shape, early])⟩

/-- The search of a pool finds the lowest offset. -/
theorem find_first (wf : p.WellFormed) (merged : Merged p.free) (sized : 0 < size.toNat)
    (positive : 0 < align.toNat) (sums : p.SumsFit size align avoid)
    (products : p.ProductsFit size align avoid) :
    IsFirst (p.freeStarts size align ∩ outside avoid) (p.find size align avoid) := by
  have member {o : Nat} : o ∈ p.freeStarts size align ∩ outside avoid ↔
      ∃ b ∈ p.free.entries, o ∈ spots size align avoid b b.1.toNat := mem_freeStarts wf merged sized
  cases found : p.find size align avoid with
  | none =>
    refine Set.eq_empty_of_forall_notMem fun o spot => ?_
    obtain ⟨b, listed, inBlock⟩ := member.mp spot
    have first := searchBlock_first positive sums products (reaches_of_none found listed)
    rw [show searchBlock size align avoid b = none from List.findSome?_eq_none_iff.mp found b listed] at first
    have empty : spots size align avoid b b.1.toNat = ∅ := first
    rw [empty] at inBlock
    exact inBlock
  | some offset =>
    obtain ⟨before, b, after, shape, hit, missed⟩ := List.findSome?_eq_some_iff.mp found
    have listed : b ∈ p.free.entries := by simp [shape]
    have first := searchBlock_first positive sums products ⟨before, after, shape, missed⟩
    have hit : searchBlock size align avoid b = some offset := hit
    rw [hit] at first
    obtain ⟨inBlock, least⟩ : IsLeast (spots size align avoid b b.1.toNat) offset.toNat := first
    refine ⟨member.mpr ⟨b, listed, inBlock⟩, fun o spot => ?_⟩
    obtain ⟨c, listedC, inC⟩ := member.mp spot
    have sorted := wf.ordered
    unfold OrdMap.Ordered at sorted
    rw [shape] at sorted listedC
    rcases List.mem_append.mp listedC with early | late
    · -- the search came to every block below and found nothing there
      obtain ⟨before', after', shape'⟩ := List.append_of_mem early
      have reached : p.Reaches size align avoid c :=
        ⟨before', after' ++ b :: after, by simp [shape, shape'],
          fun a earlier => missed a (by simp [shape', earlier])⟩
      have firstC := searchBlock_first positive sums products reached
      rw [show searchBlock size align avoid c = none from missed c early] at firstC
      have empty : spots size align avoid c c.1.toNat = ∅ := firstC
      rw [empty] at inC
      exact inC.elim
    · rcases List.mem_cons.mp late with rfl | later
      · exact least inC
      · have ascending := (List.pairwise_cons.mp (List.pairwise_append.mp sorted).2.1).1 c later
        have gap := Blocks.apart wf b listed c (by simp [shape, later]) ascending
        have bound := p.limit.toNat_lt
        have inside := Blocks.inside wf b listed
        have blockEnd : (b.1 + b.2).toNat = b.1.toNat + b.2.toNat := toNat_add (by omega)
        obtain ⟨-, -, ends, -⟩ := inBlock
        obtain ⟨above, -⟩ := inC
        omega

/-- The search without a bank comes to no start that the failed search with a bank did not come to. -/
theorem visits_fallback (failed : p.find size align avoid = none) {b : UInt32 × UInt32} {start : UInt32}
    (visited : p.Visits size align none b start) : p.Visits size align avoid b start := by
  cases visited with
  | first reached =>
    obtain ⟨before, after, shape, -⟩ := reached
    exact .first (reaches_of_none failed (by simp [shape]))
  | next _ _ banned => cases banned

theorem SumsFit.fallback (failed : p.find size align avoid = none) (sums : p.SumsFit size align avoid) :
    p.SumsFit size align none where
  first b reached := by
    obtain ⟨before, after, shape, -⟩ := reached
    exact sums.first b (reaches_of_none failed (by simp [shape]))
  stop b start visited := sums.stop b start (visits_fallback failed visited)
  next _ _ _ _ banned := by cases banned

/-- Without a bank to avoid, a search never goes on to the next general register. -/
theorem productsFit_none : p.ProductsFit size align none := fun _ _ _ _ banned => by cases banned

/-- An allocation takes the lowest offset outside the bank, else the lowest of all. -/
theorem allocate_first (wf : p.WellFormed) (merged : Merged p.free) (sized : 0 < size.toNat)
    (positive : 0 < align.toNat) (sums : p.SumsFit size align avoid)
    (products : p.ProductsFit size align avoid) :
    (p.allocate size align avoid = none ↔ p.freeStarts size align = ∅) ∧
      ∀ offset p', p.allocate size align avoid = some (offset, p') →
        (IsLeast (p.freeStarts size align ∩ outside avoid) offset.toNat ∨
          p.freeStarts size align ∩ outside avoid = ∅ ∧ IsLeast (p.freeStarts size align) offset.toNat) ∧
        p.Fits offset size ∧ p' = p.take offset size := by
  have everywhere : p.freeStarts size align ∩ outside none = p.freeStarts size align := by
    simp [outside]
  have fitting {o : UInt32} (start : o.toNat ∈ p.freeStarts size align) : p.Fits o size :=
    Blocks.holds_free wf merged sized start.2
  have first := find_first wf merged sized positive sums products
  cases found : p.find size align avoid with
  | some offset =>
    rw [found] at first
    have least : IsLeast (p.freeStarts size align ∩ outside avoid) offset.toNat := first
    have taken : p.allocate size align avoid = some (offset, p.take offset size) := by
      unfold allocate
      cases avoid <;> simp [found]
    rw [taken]
    refine ⟨⟨nofun, fun empty => ?_⟩, ?_⟩
    · exact absurd (empty ▸ least.1.1) (Set.notMem_empty _)
    · rintro _ _ ⟨⟩
      exact ⟨.inl least, fitting least.1.1, rfl⟩
  | none =>
    rw [found] at first
    have empty : p.freeStarts size align ∩ outside avoid = ∅ := first
    have anywhere := find_first wf merged sized positive (sums.fallback found) productsFit_none
    rw [everywhere] at anywhere
    have again : p.allocate size align avoid =
        (p.find size align none).map fun offset => (offset, p.take offset size) := by
      unfold allocate
      cases avoid <;> simp [found]
    rw [again]
    cases fallback : p.find size align none with
    | none =>
      rw [fallback] at anywhere
      exact ⟨⟨fun _ => anywhere, fun _ => rfl⟩, nofun⟩
    | some offset =>
      rw [fallback] at anywhere
      have least : IsLeast (p.freeStarts size align) offset.toNat := anywhere
      refine ⟨⟨nofun, fun none => ?_⟩, ?_⟩
      · exact absurd (none ▸ least.1) (Set.notMem_empty _)
      · rintro _ _ ⟨⟩
        exact ⟨.inr ⟨empty, least⟩, fitting least.1, rfl⟩

/-- A claim succeeds exactly on free ranges. -/
theorem claim_isSome (wf : p.WellFormed) (merged : Merged p.free) {offset : UInt32} (sized : 0 < size.toNat)
    (small : offset.toNat + size.toNat < 4294967296) :
    (p.claim offset size).isSome ↔ ∀ x, InRange offset size x → p.IsFree x := by
  constructor
  · intro succeeds x here
    obtain ⟨p', claimed⟩ := Option.isSome_iff_exists.mp succeeds
    exact (claim_spec wf small claimed).1.isFree here
  · intro isFree
    obtain ⟨b, member, low, high⟩ := Blocks.holds_free wf merged sized
      fun x least most => isFree x ⟨least, most⟩
    have bound := p.limit.toNat_lt
    have inside := Blocks.inside wf b member
    have blockEnd : (b.1 + b.2).toNat = b.1.toNat + b.2.toNat := toNat_add (by omega)
    have rangeEnd : (offset + size).toNat = offset.toNat + size.toNat := toNat_add small
    have room : ¬ b.1 + b.2 < offset + size := by
      rw [UInt32.lt_iff_toNat_lt]
      omega
    unfold claim
    rw [Blocks.floor_of_holds wf member sized low high]
    simp [room]

end Search

/-- Every pool that comes of a fresh one has its window, and maximal blocks that share no byte. -/
theorem Reachable.invariant {base limit : UInt32} {p : FreePool} (reached : Reachable base limit p) :
    p.base = base ∧ p.limit = limit ∧ p.WellFormed ∧ Merged p.free := by
  induction reached with
  | new => exact ⟨rfl, rfl, (new_wellFormed base limit).1, new_merged base limit⟩
  | allocate _ sized positive sums products allocated ih =>
    obtain ⟨sameBase, sameLimit, wf, merged⟩ := ih
    obtain ⟨-, taken⟩ := allocate_first wf merged sized positive sums products
    obtain ⟨-, fits, rfl⟩ := taken _ _ allocated
    exact ⟨sameBase, sameLimit, (take_spec wf sized fits).1, take_merged wf merged sized fits⟩
  | claim _ sized small claimed ih =>
    obtain ⟨sameBase, sameLimit, wf, merged⟩ := ih
    obtain ⟨fits, rfl⟩ := claim_spec wf small claimed
    exact ⟨sameBase, sameLimit, (take_spec wf sized fits).1, take_merged wf merged sized fits⟩
  | release _ sized taken ih =>
    obtain ⟨sameBase, sameLimit, wf, merged⟩ := ih
    exact ⟨sameBase, sameLimit, (release_taken wf sized taken).1, release_merged wf merged sized taken⟩

/-- A window that leaves room for a request below the end of the address space wraps nothing. -/
theorem WellFormed.searchFits {p : FreePool} (wf : p.WellFormed) (size : UInt32) {align : UInt32}
    (positive : 0 < align.toNat) (room : p.limit.toNat + size.toNat + align.toNat + 32 < 4294967296)
    (avoid : Option Nat) : p.SumsFit size align avoid ∧ p.ProductsFit size align avoid := by
  have inWindow (b : UInt32 × UInt32) (reached : p.Reaches size align avoid b) :
      b.1.toNat < p.limit.toNat ∧ (b.1 + b.2).toNat ≤ p.limit.toNat := by
    obtain ⟨before, after, shape, -⟩ := reached
    have listed : b ∈ p.free.entries := by simp [shape]
    have nonempty := Blocks.nonempty wf b listed
    obtain ⟨-, top⟩ := Blocks.inside wf b listed
    rw [toNat_add (by omega)]
    exact ⟨by omega, top⟩
  have near (b : UInt32 × UInt32) (start : UInt32) (visited : p.Visits size align avoid b start) :
      (b.1 + b.2).toNat ≤ p.limit.toNat ∧ start.toNat < p.limit.toNat + align.toNat + 32 := by
    induction visited with
    | first reached =>
      obtain ⟨low, top⟩ := inWindow b reached
      obtain ⟨-, most, -⟩ := alignUp_bounds (v := b.1) positive (by omega)
      exact ⟨top, by omega⟩
    | @next start _ fits _ ih =>
      obtain ⟨top, most⟩ := ih
      have sum : (start + size).toNat = start.toNat + size.toNat := toNat_add (by omega)
      have inside := UInt32.le_iff_toNat_le.mp fits
      have row := nextRow start (by omega)
      obtain ⟨-, most, -⟩ := alignUp_bounds (v := (start / 32 + 1) * 32) positive (by omega)
      exact ⟨top, by omega⟩
  have step (b : UInt32 × UInt32) (start : UInt32) (visited : p.Visits size align avoid b start)
      (fits : start + size ≤ b.1 + b.2) :
      (start.toNat / 32 + 1) * 32 + align.toNat < 4294967296 := by
    obtain ⟨top, most⟩ := near b start visited
    have sum : (start + size).toNat = start.toNat + size.toNat := toNat_add (by omega)
    have inside := UInt32.le_iff_toNat_le.mp fits
    omega
  refine ⟨⟨?_, ?_, ?_⟩, ?_⟩
  · intro b reached
    obtain ⟨low, -⟩ := inWindow b reached
    omega
  · intro b start visited
    obtain ⟨-, most⟩ := near b start visited
    omega
  · intro b start visited fits _
    have small := step b start visited fits
    rw [nextRow _ (by omega)]
    exact small
  · intro b start visited fits _
    have small := step b start visited fits
    omega

/-- **First fit.** The free blocks of a pool are nonempty, in order, apart, merged and inside the window,
and their sizes add up to the free bytes. An allocation takes the lowest suitable offset and fails when
there is none, a claim succeeds on free ranges only, and each operation changes the free bytes by exactly
the range it takes or gives back. -/
theorem Reachable.first_fit {base limit : UInt32} {p : FreePool} (reached : Reachable base limit p) :
    Blocks base.toNat limit.toNat p.free ∧ Merged p.free ∧
    p.available.toNat = {x | p.IsFree x}.ncard ∧
    (∀ size align avoid, 0 < size.toNat → 0 < align.toNat → p.SumsFit size align avoid →
      p.ProductsFit size align avoid →
      (p.allocate size align avoid = none ↔ p.freeStarts size align = ∅) ∧
      ∀ offset p', p.allocate size align avoid = some (offset, p') →
        (IsLeast (p.freeStarts size align ∩ outside avoid) offset.toNat ∨
          p.freeStarts size align ∩ outside avoid = ∅ ∧ IsLeast (p.freeStarts size align) offset.toNat) ∧
        ∀ x, p'.IsFree x ↔ p.IsFree x ∧ ¬ InRange offset size x) ∧
    (∀ offset size, 0 < size.toNat → offset.toNat + size.toNat < 4294967296 →
      ((p.claim offset size).isSome ↔ ∀ x, InRange offset size x → p.IsFree x) ∧
      ∀ p', p.claim offset size = some p' →
        ∀ x, p'.IsFree x ↔ p.IsFree x ∧ ¬ InRange offset size x) ∧
    (∀ offset size, 0 < size.toNat → (∀ x, InRange offset size x → p.IsTaken x) →
      ∀ x, (p.release offset size).IsFree x ↔ p.IsFree x ∨ InRange offset size x) := by
  obtain ⟨sameBase, sameLimit, wf, merged⟩ := reached.invariant
  refine ⟨sameBase ▸ sameLimit ▸ wf, merged, available_eq wf, ?_, ?_, ?_⟩
  · intro size align avoid sized positive sums products
    obtain ⟨fails, takes⟩ := allocate_first wf merged sized positive sums products
    refine ⟨fails, fun offset p' allocated => ?_⟩
    obtain ⟨least, fits, rfl⟩ := takes offset p' allocated
    exact ⟨least, (take_spec wf sized fits).2⟩
  · intro offset size sized small
    refine ⟨claim_isSome wf merged sized small, fun p' claimed => ?_⟩
    obtain ⟨fits, rfl⟩ := claim_spec wf small claimed
    exact (take_spec wf sized fits).2
  · intro offset size sized taken
    exact (release_taken wf sized taken).2

/-- The pool of four registers whose lowest one is taken. -/
theorem first_fit_of_three :
    ∃ p, (new 0 128).allocate 32 32 none = some (0, p) ∧ Reachable 0 128 p ∧
      p.available.toNat = {x | p.IsFree x}.ncard ∧
      (∃ p', p.allocate 32 32 (some 1) = some (64, p') ∧
        (IsLeast (p.freeStarts 32 32 ∩ outside (some 1)) 64 ∨
          p.freeStarts 32 32 ∩ outside (some 1) = ∅ ∧ IsLeast (p.freeStarts 32 32) 64) ∧
        ∀ x, p'.IsFree x ↔ p.IsFree x ∧ ¬ InRange 64 32 x) ∧
      ((p.claim 0 32).isSome ↔ ∀ x, InRange 0 32 x → p.IsFree x) ∧
      ∀ x, (p.release 0 32).IsFree x ↔ p.IsFree x ∨ InRange 0 32 x := by
  have fresh := (new_wellFormed 0 128).1
  have wide : 0 < (32 : UInt32).toNat := by decide
  obtain ⟨sums, products⟩ := fresh.searchFits 32 wide (by decide) none
  have first : (new 0 128).allocate 32 32 none = some (0, (new 0 128).take 0 32) := by decide +kernel
  have reached : Reachable 0 128 ((new 0 128).take 0 32) := .allocate .new wide wide sums products first
  have second : ((new 0 128).take 0 32).allocate 32 32 (some 1) =
      some (64, ((new 0 128).take 0 32).take 64 32) := by decide +kernel
  obtain ⟨-, -, counted, allocates, claims, releases⟩ := Reachable.first_fit reached
  obtain ⟨-, -, wf, -⟩ := reached.invariant
  obtain ⟨sums, products⟩ := wf.searchFits 32 wide (by decide) (some 1)
  have taken : ∀ x, InRange 0 32 x → ((new 0 128).take 0 32).IsTaken x := by
    intro x here
    refine ⟨Nat.zero_le x, Nat.lt_of_lt_of_le here.2 (by decide), fun isFree => ?_⟩
    have fits : (new 0 128).Fits 0 32 := ⟨(0, 128), by decide, by decide, by decide⟩
    exact (((take_spec fresh wide fits).2 x).mp isFree).2 here
  exact ⟨_, first, reached, counted,
    ⟨_, second, (allocates 32 32 (some 1) wide wide sums products).2 64 _ second⟩,
    (claims 0 32 wide (by decide)).1, releases 0 32 wide taken⟩

/-- A pool that reaches to the end of the address space: the row after its first register wraps around to
offset zero, which the search takes for a free range. The pool keeps all its bytes, and the lowest offset
it should have fallen back to stays free. -/
theorem first_fit_wraps :
    (new 4294967264 4294967295).SumsFit 1 1 (some 1) ∧
      (new 4294967264 4294967295).allocate 1 1 (some 1) = some (0, new 4294967264 4294967295) ∧
      ¬ (new 4294967264 4294967295).IsFree 0 ∧
      (new 4294967264 4294967295).freeStarts 1 1 ∩ outside (some 1) = ∅ ∧
      IsLeast ((new 4294967264 4294967295).freeStarts 1 1) 4294967264 := by
  have only (b : UInt32 × UInt32) (reached : (new 4294967264 4294967295).Reaches 1 1 (some 1) b) :
      b = (4294967264, 31) := by
    obtain ⟨before, after, shape, -⟩ := reached
    have listed : b ∈ (new 4294967264 4294967295).free.entries := by simp [shape]
    exact List.mem_singleton.mp listed
  have isFree (x : Nat) : (new 4294967264 4294967295).IsFree x ↔ 4294967264 ≤ x ∧ x < 4294967295 := by
    constructor
    · rintro ⟨b, member, here⟩
      rw [List.mem_singleton.mp member] at here
      exact here
    · intro here
      exact ⟨(4294967264, 31), List.mem_singleton.mpr rfl, here⟩
  have visits (b : UInt32 × UInt32) (start : UInt32)
      (visited : (new 4294967264 4294967295).Visits 1 1 (some 1) b start) :
      b = (4294967264, 31) ∧ (start = 4294967264 ∨ start = 0) := by
    induction visited with
    | first reached =>
      rw [only b reached]
      exact ⟨rfl, .inl (by decide)⟩
    | next _ _ banned ih =>
      obtain ⟨same, rfl | rfl⟩ := ih
      · exact ⟨same, .inr (by decide)⟩
      · exact absurd banned (by decide)
  refine ⟨⟨?_, ?_, ?_⟩, by decide +kernel, ?_, ?_, ?_⟩
  · intro b reached
    rw [only b reached]
    decide
  · intro b start visited
    obtain ⟨-, rfl | rfl⟩ := visits b start visited <;> decide
  · intro b start visited _ _
    obtain ⟨-, rfl | rfl⟩ := visits b start visited <;> decide
  · rw [isFree]
    omega
  · refine Set.eq_empty_of_forall_notMem ?_
    rintro o ⟨⟨-, free⟩, outer⟩
    have inWindow := (isFree o).mp (free o (Nat.le_refl _) (Nat.lt_succ_self o))
    have bank : o / 32 % 2 = 1 := by omega
    exact outer (by rw [bank])
  · refine ⟨⟨⟨4294967264, rfl⟩, fun x least most => ?_⟩, fun o spot => ?_⟩
    · rw [isFree]
      have one : (1 : UInt32).toNat = 1 := rfl
      omega
    · exact ((isFree o).mp (spot.2 o (Nat.le_refl _) (Nat.lt_succ_self o))).1
end GpuCodegen.FreePool
