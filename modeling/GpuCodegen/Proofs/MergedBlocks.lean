import Mathlib.Data.Set.Card
import Mathlib.Order.Interval.Finset.Nat
import GpuCodegen.Proofs.FreeRanges

/-! The blocks of a pool are maximal: no block ends where another starts, so a free range lies in one
block, and every operation keeps it so. The sizes of the blocks add up to the number of free bytes. -/

namespace GpuCodegen.FreePool

/-- No block ends where another starts. -/
def Merged (free : OrdMap UInt32) : Prop :=
  ∀ a ∈ free.entries, ∀ b ∈ free.entries, a.1.toNat + a.2.toNat ≠ b.1.toNat

/-- A byte of the window that is not free. -/
def IsTaken (p : FreePool) (x : Nat) : Prop := p.base.toNat ≤ x ∧ x < p.limit.toNat ∧ ¬ p.IsFree x

section Maximal

variable {base limit : Nat} {free free' : OrdMap UInt32} {offset size : UInt32}

/-- Blocks are merged when nothing is free just past any of them. -/
theorem Blocks.merged_iff (blocks : Blocks base limit free) :
    Merged free ↔ ∀ b ∈ free.entries, ¬ IsFreeIn free (b.1.toNat + b.2.toNat) := by
  constructor
  · rintro merged a memberA ⟨b, memberB, least, most⟩
    have nonempty := blocks.nonempty a memberA
    rcases Nat.lt_trichotomy a.1.toNat b.1.toNat with before | same | after
    · have gap := blocks.apart a memberA b memberB (UInt32.lt_iff_toNat_lt.mpr before)
      exact merged a memberA b memberB (by omega)
    · rw [blocks.eq_of_key memberA memberB (UInt32.toNat_inj.mp same)] at most
      omega
    · have gap := blocks.apart b memberB a memberA (UInt32.lt_iff_toNat_lt.mpr after)
      omega
  · intro past a memberA b memberB meets
    refine past a memberA ⟨b, memberB, ?_⟩
    have nonempty := blocks.nonempty b memberB
    unfold InRange
    omega

/-- A free range lies in one block. -/
theorem Blocks.holds_free (blocks : Blocks base limit free) (merged : Merged free) {start count : Nat}
    (positive : 0 < count) (isFree : ∀ x, start ≤ x → x < start + count → IsFreeIn free x) :
    ∃ b ∈ free.entries, b.1.toNat ≤ start ∧ start + count ≤ b.1.toNat + b.2.toNat := by
  obtain ⟨b, member, least, most⟩ := isFree start (Nat.le_refl _) (by omega)
  refine ⟨b, member, least, Nat.not_lt.mp fun beyond => ?_⟩
  exact blocks.merged_iff.mp merged b member (isFree _ (by omega) beyond)

/-- The rest of a block is the only new one. -/
theorem mem_insertRest (ordered : free.Ordered) {stop : UInt32} {e : UInt32 × UInt32}
    (member : e ∈ (if offset < stop then free.insert offset (stop - offset) else free).entries) :
    e ∈ free.entries ∨ e.1 = offset ∧ e.1.toNat + e.2.toNat = stop.toNat := by
  split at member
  · rename_i ascending
    have difference := UInt32.toNat_sub_of_le stop offset (UInt32.le_of_lt ascending)
    have before := UInt32.lt_iff_toNat_lt.mp ascending
    rcases (OrdMap.mem_insert ordered).mp member with rfl | ⟨old, -⟩
    · refine .inr ⟨rfl, ?_⟩
      simp only
      omega
    · exact .inl old
  · exact .inl member

/-- Taking a free range leaves the blocks merged: each part of the block it was in ends at the range or
where the block ended. -/
theorem take_merged {p : FreePool} (wf : p.WellFormed) (merged : Merged p.free)
    (positive : 0 < size.toNat) (fits : p.Fits offset size) : Merged (p.take offset size).free := by
  obtain ⟨kept, remains⟩ := take_spec wf positive fits
  obtain ⟨host, member, low, high⟩ := fits
  obtain ⟨-, top⟩ := Blocks.inside wf host member
  have bound := p.limit.toNat_lt
  have hostEnd : (host.1 + host.2).toNat = host.1.toNat + host.2.toNat := toNat_add (by omega)
  have past := (Blocks.merged_iff wf).mp merged
  have gone (x : Nat) (free : (p.take offset size).IsFree x) : p.IsFree x ∧ ¬ InRange offset size x :=
    (remains x).mp free
  refine (Blocks.merged_iff kept).mpr fun e listed free => ?_
  rw [take_free wf member positive low high] at listed
  have erased : (p.free.erase host.1).Ordered := OrdMap.ordered_erase wf.ordered _
  have parted : (if host.1 < offset then (p.free.erase host.1).insert host.1 (offset - host.1)
      else p.free.erase host.1).Ordered := by
    split
    · exact OrdMap.ordered_insert erased _ _
    · exact erased
  rcases mem_insertRest parted listed with listed | ⟨-, ends⟩
  · rcases mem_insertRest erased listed with old | ⟨-, ends⟩
    · exact past e (OrdMap.mem_erase.mp old).1 (gone _ free).1
    · rw [ends] at free
      exact (gone _ free).2 ⟨Nat.le_refl _, by omega⟩
  · rw [ends, hostEnd] at free
    exact past host member (gone _ free).1

/-- After joining, no block ends where the range starts. -/
theorem joinBefore_apart {offset' size' : UInt32} (bound : limit < 4294967296)
    (addable : Addable base limit free offset size) (merged : Merged free)
    (joined : joinBefore free offset size = (free', offset', size')) :
    ∀ e ∈ free'.entries, e ∈ free.entries ∧ e.1.toNat + e.2.toNat ≠ offset'.toNat := by
  have blocks := addable.blocks
  have positive := addable.positive
  unfold joinBefore at joined
  split at joined
  · rename_i start length found
    obtain ⟨member, below, nearest⟩ := OrdMap.floor?_eq_some blocks.ordered found
    obtain ⟨-, top⟩ := blocks.inside _ member
    have held := blocks.nonempty _ member
    have below := UInt32.le_iff_toNat_le.mp below
    simp only at top below held
    have blockEnd : (start + length).toNat = start.toNat + length.toNat := toNat_add (by omega)
    split at joined
    · cases joined
      intro e kept
      exact ⟨(OrdMap.mem_erase.mp kept).1, merged e (OrdMap.mem_erase.mp kept).1 _ member⟩
    · rename_i differs
      cases joined
      refine fun e listed => ⟨listed, fun ends => ?_⟩
      have nonempty := blocks.nonempty e listed
      have near := UInt32.le_iff_toNat_le.mp (nearest e listed (UInt32.le_iff_toNat_le.mpr (by omega)))
      simp only at near
      rcases Nat.eq_or_lt_of_le near with same | before
      · have isHost := blocks.eq_of_key listed member (UInt32.toNat_inj.mp same)
        rw [isHost] at ends
        exact differs (UInt32.toNat_inj.mp (blockEnd.trans ends))
      · -- the block below would start at the range, whose first byte is taken
        have gap := blocks.apart e listed _ member (UInt32.lt_iff_toNat_lt.mpr before)
        simp only at gap
        refine addable.taken start.toNat ⟨by omega, by omega⟩ ⟨_, member, ?_⟩
        unfold InRange
        simp only
        omega
  · rename_i missing
    cases joined
    refine fun e listed => ⟨listed, fun ends => ?_⟩
    have above := UInt32.lt_iff_toNat_lt.mp (OrdMap.floor?_eq_none missing e listed)
    omega

/-- After joining, no block starts where the range ends. -/
theorem joinAfter_apart {size' : UInt32} (bound : limit < 4294967296)
    (addable : Addable base limit free offset size) (merged : Merged free)
    (joined : joinAfter free offset size = (free', size')) :
    ∀ e ∈ free'.entries, e ∈ free.entries ∧ e.1.toNat ≠ offset.toNat + size'.toNat := by
  have blocks := addable.blocks
  have high := addable.high
  have rangeEnd : (offset + size).toNat = offset.toNat + size.toNat := toNat_add (by omega)
  unfold joinAfter at joined
  split at joined
  · rename_i start length found
    obtain ⟨member, reached, nearest⟩ := OrdMap.ceiling?_eq_some blocks.ordered found
    obtain ⟨-, top⟩ := blocks.inside _ member
    simp only at top
    split at joined
    · rename_i meets
      cases joined
      intro e kept
      have startAt : start.toNat = offset.toNat + size.toNat := by rw [← rangeEnd, meets]
      have total : (size + length).toNat = size.toNat + length.toNat := toNat_add (by omega)
      refine ⟨(OrdMap.mem_erase.mp kept).1, fun starts => ?_⟩
      have adjacent := merged _ member e (OrdMap.mem_erase.mp kept).1
      simp only at adjacent
      omega
    · rename_i differs
      cases joined
      refine fun e listed => ⟨listed, fun starts => differs ?_⟩
      have same : e.1 = offset + size := UInt32.toNat_inj.mp (starts.trans rangeEnd.symm)
      have near := nearest e listed (same ▸ UInt32.le_refl _)
      exact UInt32.le_antisymm (same ▸ near) reached
  · rename_i missing
    cases joined
    refine fun e listed => ⟨listed, fun starts => ?_⟩
    have below := UInt32.lt_iff_toNat_lt.mp (OrdMap.ceiling?_eq_none missing e listed)
    omega

/-- A taken range can be added. -/
theorem addable_taken {p : FreePool} (wf : p.WellFormed) (positive : 0 < size.toNat)
    (taken : ∀ x, InRange offset size x → p.IsTaken x) :
    Addable p.base.toNat p.limit.toNat p.free offset size := by
  obtain ⟨low, -, -⟩ := taken offset.toNat ⟨Nat.le_refl _, by omega⟩
  obtain ⟨-, high, -⟩ := taken (offset.toNat + size.toNat - 1) ⟨by omega, by omega⟩
  exact ⟨wf, positive, low, by omega, fun x here => (taken x here).2.2⟩

/-- Giving a taken range back frees its bytes. -/
theorem release_taken {p : FreePool} (wf : p.WellFormed) (positive : 0 < size.toNat)
    (taken : ∀ x, InRange offset size x → p.IsTaken x) : (p.release offset size).WellFormed ∧
      ∀ x, (p.release offset size).IsFree x ↔ p.IsFree x ∨ InRange offset size x := by
  obtain ⟨-, -, low, high, apart⟩ := addable_taken wf positive taken
  exact release_spec wf positive low high apart

/-- Giving a range back leaves the blocks merged. -/
theorem release_merged {p : FreePool} (wf : p.WellFormed) (merged : Merged p.free)
    (positive : 0 < size.toNat) (taken : ∀ x, InRange offset size x → p.IsTaken x) :
    Merged (p.release offset size).free := by
  have bound := p.limit.toNat_lt
  have addable := addable_taken wf positive taken
  cases before : joinBefore p.free offset size with
  | mk free₁ rest =>
    obtain ⟨offset₁, size₁⟩ := rest
    obtain ⟨addable₁, -⟩ := joinBefore_spec bound addable before
    have ends := joinBefore_apart bound addable merged before
    have merged₁ : Merged free₁ := fun a inA b inB => merged a (ends a inA).1 b (ends b inB).1
    cases after : joinAfter free₁ offset₁ size₁ with
    | mk free₂ size₂ =>
      obtain ⟨addable₂, -⟩ := joinAfter_spec bound addable₁ after
      have starts := joinAfter_apart bound addable₁ merged₁ after
      have shape : (p.release offset size).free = free₂.insert offset₁ size₂ := by
        simp only [release, before, after]
      have ordered := addable₂.blocks.ordered
      have filled := addable₂.positive
      rw [shape]
      intro a memberA b memberB
      rcases (OrdMap.mem_insert ordered).mp memberA with rfl | ⟨oldA, -⟩
      · rcases (OrdMap.mem_insert ordered).mp memberB with rfl | ⟨oldB, -⟩
        · simp only
          omega
        · exact (starts b oldB).2.symm
      · rcases (OrdMap.mem_insert ordered).mp memberB with rfl | ⟨oldB, -⟩
        · exact (ends a (starts a oldA).1).2
        · exact merged₁ a (starts a oldA).1 b (starts b oldB).1

end Maximal

/-- A fresh pool has one block at most. -/
theorem new_merged (base limit : UInt32) : Merged (new base limit).free := by
  intro a memberA b memberB
  have nonempty := Blocks.nonempty (new_wellFormed base limit).1 a memberA
  unfold new at memberA memberB
  split at memberA
  · rename_i window
    rw [if_pos window] at memberB
    have same := (List.mem_singleton.mp memberA).trans (List.mem_singleton.mp memberB).symm
    rw [same] at nonempty ⊢
    omega
  · cases memberA

section Counting

/-- Ranges one after the other cover as many bytes as their sizes add up to. -/
theorem ncard_covered {blocks : List (UInt32 × UInt32)}
    (apart : blocks.Pairwise fun a b => a.1.toNat + a.2.toNat ≤ b.1.toNat) :
    Set.Finite {x | ∃ b ∈ blocks, InRange b.1 b.2 x} ∧
      Set.ncard {x | ∃ b ∈ blocks, InRange b.1 b.2 x} = (blocks.map fun b => b.2.toNat).sum := by
  induction blocks with
  | nil => simp
  | cons head rest ih =>
    obtain ⟨above, apartRest⟩ := List.pairwise_cons.mp apart
    obtain ⟨finite, counted⟩ := ih apartRest
    have split : {x | ∃ b ∈ head :: rest, InRange b.1 b.2 x} =
        Set.Ico head.1.toNat (head.1.toNat + head.2.toNat) ∪ {x | ∃ b ∈ rest, InRange b.1 b.2 x} := by
      ext x
      simp [InRange]
    have disjoint : Disjoint (Set.Ico head.1.toNat (head.1.toNat + head.2.toNat))
        {x | ∃ b ∈ rest, InRange b.1 b.2 x} := by
      refine Set.disjoint_left.mpr ?_
      rintro x ⟨-, early⟩ ⟨b, member, late, -⟩
      have gap := above b member
      omega
    have single : (Set.Ico head.1.toNat (head.1.toNat + head.2.toNat)).ncard = head.2.toNat := by
      simp [Set.ncard_eq_toFinset_card']
    rw [split]
    refine ⟨(Set.finite_Ico _ _).union finite, ?_⟩
    rw [Set.ncard_union_eq disjoint (Set.finite_Ico _ _) finite, single, counted, List.map_cons,
      List.sum_cons]

private theorem foldl_toNat (blocks : List (UInt32 × UInt32)) (n : UInt32) :
    (blocks.foldl (fun n b => n + b.2) n).toNat =
      (n.toNat + (blocks.map fun b => b.2.toNat).sum) % 4294967296 := by
  induction blocks generalizing n with
  | nil =>
    have bound := n.toNat_lt
    simp only [List.foldl_nil, List.map_nil, List.sum_nil, Nat.add_zero]
    omega
  | cons head rest ih =>
    rw [List.foldl_cons, ih, UInt32.toNat_add, List.map_cons, List.sum_cons]
    omega

/-- The number of free bytes. -/
theorem available_eq {p : FreePool} (wf : p.WellFormed) :
    p.available.toNat = {x | p.IsFree x}.ncard := by
  have bound := p.limit.toNat_lt
  have apart : p.free.entries.Pairwise fun a b => a.1.toNat + a.2.toNat ≤ b.1.toNat :=
    List.Pairwise.imp_of_mem (fun inA inB ascending => Blocks.apart wf _ inA _ inB ascending) wf.ordered
  obtain ⟨-, counted⟩ := ncard_covered apart
  have inWindow : {x | p.IsFree x} ⊆ Set.Ico 0 p.limit.toNat := by
    rintro x ⟨b, member, -, most⟩
    have inside := Blocks.inside wf b member
    exact ⟨Nat.zero_le x, by omega⟩
  have small : {x | p.IsFree x}.ncard ≤ p.limit.toNat := by
    have fewer := Set.ncard_le_ncard inWindow (Set.finite_Ico _ _)
    simpa [Set.ncard_eq_toFinset_card'] using fewer
  change {x | p.IsFree x}.ncard = _ at counted
  have sum := foldl_toNat p.free.entries 0
  rw [← counted, UInt32.toNat_zero, Nat.zero_add] at sum
  unfold available
  rw [sum]
  exact Nat.mod_eq_of_lt (by omega)

end Counting

end GpuCodegen.FreePool
