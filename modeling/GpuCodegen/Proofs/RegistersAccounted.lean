import GpuCodegen.Proofs.SpillLoop
import GpuCodegen.Proofs.UnplacedRegisters

/-! Every register is accounted for. A sweep that succeeds leaves each register either in the register
file or in scratch memory, never in both and never in neither; an allocation ends with a sweep that
spills nothing, so every register its kernel names has a place. -/

namespace GpuCodegen.FreePool

theorem Bounded.erase {limit : Nat} {free : OrdMap UInt32} (bounded : Bounded limit free) (key : UInt32) :
    Bounded limit (free.erase key) :=
  ⟨OrdMap.ordered_erase bounded.ordered key, fun b member => bounded.inside b (OrdMap.mem_erase.mp member).1⟩

theorem Bounded.insert {limit : Nat} {free : OrdMap UInt32} (bounded : Bounded limit free)
    {offset size : UInt32} (inside : offset.toNat + size.toNat ≤ limit) :
    Bounded limit (free.insert offset size) := by
  refine ⟨OrdMap.ordered_insert bounded.ordered _ _, fun b member => ?_⟩
  rcases (OrdMap.mem_insert bounded.ordered).mp member with rfl | ⟨old, -⟩
  · exact inside
  · exact bounded.inside b old

theorem sub_add_toNat {a b : UInt32} (below : a < b) : a.toNat + (b - a).toNat = b.toNat := by
  have less := UInt32.lt_iff_toNat_lt.mp below
  rw [UInt32.toNat_sub_of_le _ _ (UInt32.le_of_lt below)]
  omega

theorem bounded_new (base limit : UInt32) : Bounded limit.toNat (new base limit).free := by
  have empty : Bounded limit.toNat .empty := ⟨OrdMap.ordered_empty, nofun⟩
  unfold new
  dsimp only
  split
  · rename_i nonempty
    exact empty.insert (Nat.le_of_eq (sub_add_toNat nonempty))
  · exact empty

section
variable {limit : Nat} {free : OrdMap UInt32} {p : FreePool} {offset size : UInt32}

theorem Bounded.take (bounded : Bounded p.limit.toNat p.free)
    (inside : offset.toNat + size.toNat ≤ p.limit.toNat) :
    Bounded p.limit.toNat (p.take offset size).free := by
  unfold FreePool.take
  have block (b : UInt32 × UInt32) (found : b = (p.free.floor? offset).getD (0, 0)) :
      b.1.toNat + b.2.toNat ≤ p.limit.toNat := by
    rw [found]
    cases known : p.free.floor? offset with
    | none => exact Nat.zero_le _
    | some b => exact bounded.inside b (OrdMap.floor?_eq_some bounded.ordered known).1
  generalize (p.free.floor? offset).getD (0, 0) = b at block
  obtain ⟨start, length⟩ := b
  have top := block _ rfl
  have bound := p.limit.toNat_lt
  dsimp only at top ⊢
  have left : Bounded p.limit.toNat (if start < offset then (p.free.erase start).insert start (offset - start)
      else p.free.erase start) := by
    split
    · rename_i before
      refine (bounded.erase start).insert ?_
      rw [sub_add_toNat before]
      omega
    · exact bounded.erase start
  split
  · rename_i after
    refine left.insert ?_
    rw [sub_add_toNat after, toNat_add (by omega)]
    exact top
  · exact left

theorem Bounded.joinBefore (bounded : Bounded limit free) (small : limit < 4294967296)
    (inside : offset.toNat + size.toNat ≤ limit) :
    Bounded limit (joinBefore free offset size).1 ∧
      (FreePool.joinBefore free offset size).2.1.toNat + (FreePool.joinBefore free offset size).2.2.toNat ≤
        limit := by
  unfold FreePool.joinBefore
  split
  · rename_i start length found
    split
    · rename_i meets
      have top : start.toNat + length.toNat ≤ limit :=
        bounded.inside _ (OrdMap.floor?_eq_some bounded.ordered found).1
      have sum : (start + length).toNat = start.toNat + length.toNat := toNat_add (by omega)
      rw [meets] at sum
      refine ⟨bounded.erase start, ?_⟩
      change start.toNat + (length + size).toNat ≤ _
      rw [toNat_add (by omega)]
      omega
    · exact ⟨bounded, inside⟩
  · exact ⟨bounded, inside⟩

theorem Bounded.joinAfter (bounded : Bounded limit free) (small : limit < 4294967296)
    (inside : offset.toNat + size.toNat ≤ limit) :
    Bounded limit (joinAfter free offset size).1 ∧
      offset.toNat + (FreePool.joinAfter free offset size).2.toNat ≤ limit := by
  unfold FreePool.joinAfter
  split
  · rename_i start length found
    split
    · rename_i meets
      have top : start.toNat + length.toNat ≤ limit :=
        bounded.inside _ (OrdMap.ceiling?_eq_some bounded.ordered found).1
      have sum : (offset + size).toNat = offset.toNat + size.toNat := toNat_add (by omega)
      rw [← meets] at sum
      refine ⟨bounded.erase start, ?_⟩
      change offset.toNat + (size + length).toNat ≤ _
      rw [toNat_add (by omega)]
      omega
    · exact ⟨bounded, inside⟩
  · exact ⟨bounded, inside⟩

theorem Bounded.release (bounded : Bounded p.limit.toNat p.free)
    (inside : offset.toNat + size.toNat ≤ p.limit.toNat) :
    Bounded p.limit.toNat (p.release offset size).free := by
  obtain ⟨before, fits⟩ := bounded.joinBefore p.limit.toNat_lt inside
  obtain ⟨after, fits⟩ := before.joinAfter p.limit.toNat_lt fits
  exact after.insert fits

end

end GpuCodegen.FreePool

namespace GpuCodegen.Placement
open FreePool LiveIntervals Outcome

/-- No scratch slot that a sweep hands out ends past 32 bits. -/
def ScratchFits (s : Sweep) : Prop :=
  ∀ iv offset reused, PlacementEvent.spilled iv offset reused ∈ s.log →
    offset.toNat + (Sweep.scratchBytes iv).toNat < 4294967296

/-- A sweep that has met the intervals `done`: each of them has a place or is spilled, and no other. -/
structure Accounted (k : Kernel) (limit : UInt32) (done : List Nat) (s : Sweep) : Prop extends
    Roster k s where
  window : s.pool.limit = limit
  pool : Bounded limit.toNat s.pool.free
  apart : s.active.Nodup
  placed : ∀ a ∈ s.active, Mapped k s a
  ends : ∀ n, Live k n → Mapped k s n → (place k s n).toNat + (span k n).slot.toNat < 4294967296
  holes : ∀ e ∈ s.holes, Live k e.owner ∧ Mapped k s e.owner
  met : ∀ n, Live k n → (n ∈ done ↔ Mapped k s n ∨ (span k n).reg ∈ s.spilled)
  once : ∀ n, Live k n → Mapped k s n → (span k n).reg ∉ s.spilled
  nodup : s.spilled.Nodup
  listed : ScratchFits s → ∀ r, s.scratch.contains r = true ↔ r ∈ s.spilled

section
variable {k : Kernel} {lv : Liveness} {cfg : SweepConfig} {limit : UInt32} {done done' : List Nat} {s s' : Sweep}
  {n : Nat}

theorem Accounted.expires (accounted : Accounted k limit done s) (expires : Expires s s')
    (pool : Bounded limit.toNat s'.pool.free) : Accounted k limit done s' := by
  have mapped (m : Nat) : place k s' m = place k s m := place_congr expires.offsets m
  refine ⟨accounted.toRoster.expires expires, expires.window.trans accounted.window, pool,
    accounted.apart.sublist expires.active, ?_, ?_, ?_, ?_, ?_, ?_, ?_⟩
  · intro a member
    rw [Mapped, mapped]
    exact accounted.placed a (expires.active.mem member)
  · intro m live
    rw [Mapped, mapped]
    exact accounted.ends m live
  · intro e member
    rw [Mapped, mapped]
    exact accounted.holes e (expires.holes e member)
  · intro m live
    rw [Mapped, mapped, expires.spilled]
    exact accounted.met m live
  · intro m live
    rw [Mapped, mapped, expires.spilled]
    exact accounted.once m live
  · rw [expires.spilled]
    exact accounted.nodup
  · unfold ScratchFits
    rw [expires.log, expires.scratch, expires.spilled]
    exact accounted.listed

theorem Accounted.deactivate_pool (accounted : Accounted k limit done s) (active : n ∈ s.active) :
    Bounded limit.toNat (s.deactivate n).pool.free := by
  have live := accounted.active n active
  unfold Sweep.deactivate
  dsimp only
  split
  · exact accounted.pool
  · split
    · rename_i contained
      have bounded := accounted.pool
      rw [← accounted.window] at bounded ⊢
      refine bounded.release ?_
      simp only [FreePool.contains, Bool.and_eq_true, decide_eq_true_eq, UInt32.le_iff_toNat_le] at contained
      have small := accounted.ends n live (accounted.placed n active)
      rw [place, ← (accounted.shape n).reg, ← (accounted.shape n).slot] at small
      rw [← toNat_add small]
      exact contained.2
    · exact accounted.pool

theorem Accounted.expireOne (accounted : Accounted k limit done s) : Accounted k limit done (s.expireOne n) := by
  have pool : Bounded limit.toNat (s.expireOne n).pool.free := by
    unfold Sweep.expireOne
    split
    · exact accounted.pool
    · split
      · rename_i placed
        exact accounted.deactivate_pool (by simpa [Sweep.isPlaced] using placed)
      · exact accounted.pool
  exact accounted.expires (expireOne_expires s n) pool

theorem Accounted.expire (accounted : Accounted k limit done s) (start : Int) :
    Accounted k limit done (s.expire start) := by
  have along (ns : List Nat) (s : Sweep) (accounted : Accounted k limit done s) :
      Accounted k limit done (ns.foldl Sweep.expireOne s) := by
    induction ns generalizing s with
    | nil => exact accounted
    | cons n ns ih => exact ih (s.expireOne n) accounted.expireOne
  have after := along (s.ending.takeWhile fun n => decide ((s.store.get n).max < start)) s accounted
  exact accounted.expires (expire_expires s start) after.pool

theorem Accounted.not_mapped (accounted : Accounted k limit done s) (live : Live k n) (new : n ∉ done) :
    ¬ Mapped k s n :=
  fun mapped => new ((accounted.met n live).mpr (.inl mapped))

/-- An interval met for the first time gets a place. -/
theorem Accounted.puts {offset : UInt32} (accounted : Accounted k limit done s) (roomy : Roomy k)
    (live : Live k n) (new : n ∉ done) (puts : Puts s s' n offset)
    (small : offset.toNat + (span k n).slot.toNat < 4294967296) (pool : Bounded limit.toNat s'.pool.free) :
    Accounted k limit (done ++ [n]) s' := by
  have here : place k s' n = offset := by
    rw [place, puts.offsets, (accounted.shape n).reg, RegisterMap.get_insert_self]
  have others (m : Nat) (liveM : Live k m) (differs : m ≠ n) : place k s' m = place k s m := by
    rw [place, puts.offsets, (accounted.shape n).reg,
      RegisterMap.get_insert_of_ne _ (liveM.reg_ne live differs), place]
  have mapped : Mapped k s' n := by
    rw [Mapped, here]
    rintro rfl
    have positive := roomy n live
    change 4294967295 + _ < _ at small
    omega
  have kept (m : Nat) (liveM : Live k m) (before : Mapped k s m) : Mapped k s' m := by
    have differs : m ≠ n := fun same => accounted.not_mapped live new (same ▸ before)
    rw [Mapped, others m liveM differs]
    exact before
  have absent : (span k n).reg ∉ s.spilled := fun listed => new ((accounted.met n live).mpr (.inr listed))
  refine ⟨accounted.toRoster.puts live puts, puts.window.trans accounted.window, pool, ?_, ?_, ?_, ?_, ?_, ?_, ?_, ?_⟩
  · rw [puts.active]
    refine List.nodup_append.mpr ⟨accounted.apart, by simp, ?_⟩
    rintro a active _ member rfl
    rw [List.mem_singleton.mp member] at active
    exact accounted.not_mapped live new (accounted.placed n active)
  · intro a member
    rw [puts.active] at member
    rcases List.mem_append.mp member with before | now
    · exact kept a (accounted.active a before) (accounted.placed a before)
    · rw [List.mem_singleton.mp now]
      exact mapped
  · intro m liveM mappedM
    by_cases same : m = n
    · rw [same, here]
      exact small
    · rw [Mapped, others m liveM same] at mappedM
      rw [others m liveM same]
      exact accounted.ends m liveM mappedM
  · intro e member
    obtain ⟨before, held, owner⟩ := puts.holes e member
    obtain ⟨liveOwner, mappedOwner⟩ := accounted.holes before held
    rw [← owner]
    exact ⟨liveOwner, kept _ liveOwner mappedOwner⟩
  · intro m liveM
    rw [puts.spilled, List.mem_append, List.mem_singleton]
    by_cases same : m = n
    · rw [same]
      exact ⟨fun _ => .inl mapped, fun _ => .inr rfl⟩
    · rw [Mapped, others m liveM same]
      simp only [same, or_false]
      exact accounted.met m liveM
  · intro m liveM mappedM
    rw [puts.spilled]
    by_cases same : m = n
    · rw [same]
      exact absent
    · rw [Mapped, others m liveM same] at mappedM
      exact accounted.once m liveM mappedM
  · rw [puts.spilled]
    exact accounted.nodup
  · obtain ⟨e, log, -⟩ := puts.log
    intro fits r
    rw [puts.scratch, puts.spilled]
    refine accounted.listed (fun iv at_ reused event => fits iv at_ reused ?_) r
    rw [log]
    exact List.mem_append_left _ event

/-- An interval that gives up its place, or has none. -/
structure Unplaced (k : Kernel) (limit : UInt32) (s t : Sweep) (n : Nat) : Prop where
  others : ∀ m, Live k m → m ≠ n → place k t m = place k s m
  gone : ¬ Mapped k t n
  active : ∀ a, a ∈ t.active → a ∈ s.active ∧ a ≠ n
  apart : t.active.Nodup
  holes : ∀ e ∈ t.holes, e ∈ s.holes ∧ e.owner ≠ n
  window : t.pool.limit = limit
  pool : Bounded limit.toNat t.pool.free

theorem Accounted.unplace (accounted : Accounted k limit done s) (live : Live k n)
    (free : n ∈ s.active ∨ n ∉ done) : Unplaced k limit s (s.unplace n) n := by
  by_cases active : n ∈ s.active
  · have expires := deactivate_expires s n
    have pool := accounted.deactivate_pool active
    have window := (deactivate_expires s n).window.trans accounted.window
    have shape : s.unplace n =
        { s.deactivate n with
          holes := (s.deactivate n).holes.filter fun h => h.owner != n
          offsets := s.offsets.erase (span k n).reg } := by
      unfold Sweep.unplace
      rw [if_pos (by simpa [Sweep.isPlaced] using active)]
      simp only [expires.offsets, expires.store, (accounted.shape n).reg]
    have shorter : (s.unplace n).active = s.active.erase n := unplace_active s n
    refine ⟨?_, ?_, ?_, ?_, ?_, ?_, ?_⟩
    · intro m liveM differs
      rw [shape]
      exact RegisterMap.get_erase_of_ne _ (liveM.reg_ne live differs)
    · intro mapped
      rw [shape] at mapped
      exact mapped (RegisterMap.get_erase_self _ _)
    · intro a member
      rw [shorter, accounted.apart.mem_erase_iff] at member
      exact member.symm
    · rw [shorter]
      exact accounted.apart.erase n
    · intro e member
      rw [shape] at member
      obtain ⟨held, other⟩ := List.mem_filter.mp member
      exact ⟨expires.holes e held, by simpa using other⟩
    · rw [shape]
      exact window
    · rw [shape]
      exact pool
  · have new := free.resolve_left active
    have same : s.unplace n = s := by
      unfold Sweep.unplace
      rw [if_neg (by simpa [Sweep.isPlaced] using active)]
    rw [same]
    refine ⟨fun _ _ _ => rfl, accounted.not_mapped live new, ?_, accounted.apart, ?_, accounted.window,
      accounted.pool⟩
    · intro a member
      exact ⟨member, fun here => active (here ▸ member)⟩
    · intro e member
      refine ⟨member, fun here => ?_⟩
      exact accounted.not_mapped live new (here ▸ (accounted.holes e member).2)

theorem scratchBytes_large (iv : Interval) : 32 ≤ (Sweep.scratchBytes iv).toNat := by
  unfold Sweep.scratchBytes
  split
  · decide
  · rename_i large
    exact UInt32.le_iff_toNat_le.mp (UInt32.not_lt.mp large)

/-- An active interval, or one met for the first time, is spilled. -/
theorem Accounted.spill (accounted : Accounted k limit done s) (live : Live k n)
    (free : n ∈ s.active ∨ n ∉ done) (more : ∀ m, m ∈ done' ↔ m ∈ done ∨ m = n)
    (spilled : s.spill lv cfg n = .ok s') : Accounted k limit done' s' := by
  have unplaced := accounted.unplace live free
  have spills := spill_cases spilled
  obtain ⟨listed, log, scratch⟩ := unplace_spilled s n
  have absent : (span k n).reg ∉ s.spilled := by
    rcases free with active | new
    · exact accounted.once n live (accounted.placed n active)
    · exact fun here => new ((accounted.met n live).mpr (.inr here))
  have others (m : Nat) (liveM : Live k m) (differs : m ≠ n) : place k s' m = place k s m := by
    rw [place_congr spills.offsets, unplaced.others m liveM differs]
  have gone : ¬ Mapped k s' n := by
    rw [Mapped, place_congr spills.offsets]
    exact unplaced.gone
  have list : s'.spilled = s.spilled ++ [(span k n).reg] := by
    rw [spills.spilled, listed, (accounted.shape n).reg]
  refine ⟨accounted.toRoster.spill live spilled, ?_, ?_, ?_, ?_, ?_, ?_, ?_, ?_, ?_, ?_⟩
  · rw [spills.pool]
    exact unplaced.window
  · rw [spills.pool]
    exact unplaced.pool
  · rw [spills.active]
    exact unplaced.apart
  · intro a member
    rw [spills.active] at member
    obtain ⟨before, differs⟩ := unplaced.active a member
    rw [Mapped, others a (accounted.active a before) differs]
    exact accounted.placed a before
  · intro m liveM mapped
    have differs : m ≠ n := fun same => gone (same ▸ mapped)
    rw [Mapped, others m liveM differs] at mapped
    rw [others m liveM differs]
    exact accounted.ends m liveM mapped
  · intro e member
    rw [spills.holes] at member
    obtain ⟨held, differs⟩ := unplaced.holes e member
    obtain ⟨liveOwner, mapped⟩ := accounted.holes e held
    rw [Mapped, others _ liveOwner differs]
    exact ⟨liveOwner, mapped⟩
  · intro m liveM
    rw [list, more, List.mem_append, List.mem_singleton]
    by_cases same : m = n
    · rw [same]
      exact ⟨fun _ => .inr (.inr rfl), fun _ => .inr rfl⟩
    · have other := liveM.reg_ne live same
      rw [Mapped, others m liveM same]
      simp only [same, other, or_false]
      exact accounted.met m liveM
  · intro m liveM mapped
    have differs : m ≠ n := fun same => gone (same ▸ mapped)
    rw [Mapped, others m liveM differs] at mapped
    rw [list, List.mem_append, List.mem_singleton, not_or]
    exact ⟨accounted.once m liveM mapped, liveM.reg_ne live differs⟩
  · rw [list]
    refine List.nodup_append.mpr ⟨accounted.nodup, by simp, ?_⟩
    rintro r before _ now rfl
    rw [List.mem_singleton.mp now] at before
    exact absent before
  · intro fits r
    obtain ⟨offset, reused, inserted, told⟩ := spills.scratch
    have fitsBefore : ScratchFits s := by
      intro iv at_ old event
      refine fits iv at_ old ?_
      rw [told, log]
      exact List.mem_append_left _ event
    have mapped : offset ≠ unmapped := by
      have small := fits (s.store.get n) offset reused (by rw [told]; simp)
      have large := scratchBytes_large (s.store.get n)
      rintro rfl
      change 4294967295 + _ < _ at small
      omega
    rw [list, List.mem_append, List.mem_singleton, ← accounted.listed fitsBefore, inserted, scratch,
      (accounted.shape n).reg, RegisterMap.contains_insert _ _ _ mapped]

theorem Accounted.settles {avoid : Option Nat} {r : Except (Stopped PlacementEvent) Sweep}
    (accounted : Accounted k limit done s) (roomy : Roomy k) (live : Live k n) (new : n ∉ done)
    (search : limit.toNat + (span k n).slot.toNat + 64 < 4294967296)
    (settles : Settles k lv cfg n avoid s r) (ran : r = .ok s') : Accounted k limit (done ++ [n]) s' := by
  induction settles with
  | @placed s offset pool found =>
    cases ran
    have bounded := accounted.pool
    have positive : 0 < (s.store.get n).slot.toNat := by
      rw [(accounted.shape n).slot]
      exact roomy n live
    obtain ⟨least, most⟩ := alignment_bounds positive
    rw [← accounted.window] at bounded search
    rw [← (accounted.shape n).slot] at search
    obtain ⟨⟨b, member, -, high⟩, rfl⟩ := bounded.allocate least most search found
    have inside := Nat.le_trans high (bounded.inside b member)
    refine accounted.puts roomy live new (assign_puts s n offset rfl (by simp)) ?_ ?_
    · rw [← (accounted.shape n).slot]
      exact Nat.lt_of_le_of_lt inside s.pool.limit.toNat_lt
    · rw [← accounted.window]
      exact bounded.take inside
  | refused => cases ran
  | itself full spills alone =>
    exact accounted.spill live (.inr new) (fun m => by rw [List.mem_append, List.mem_singleton]) ran
  | failed => cases ran
  | @again s t v r full spills victim spilled rest ih =>
    have active := (victim_spec victim).1
    have liveV := accounted.active v active
    have met : v ∈ done := (accounted.met v liveV).mpr (.inl (accounted.placed v active))
    refine ih (accounted.spill liveV (.inl active) (fun m => ?_) spilled) ran
    refine ⟨.inl, ?_⟩
    rintro (before | rfl)
    · exact before
    · exact met

theorem Accounted.openHole (accounted : Accounted k limit done s) (hollow : Hollow k n) :
    Accounted k limit (done ++ [n]) (s.openHole (Liveness.ofKernel k) cfg n) := by
  have more (m : Nat) (live : Live k m) : m ∈ done ++ [n] ↔ m ∈ done := by
    rw [List.mem_append, List.mem_singleton]
    refine ⟨fun met => met.resolve_right ?_, .inl⟩
    rintro rfl
    have hole := hollow.hole
    rw [live.live] at hole
    cases hole
  have met (m : Nat) (live : Live k m) : m ∈ done ++ [n] ↔ Mapped k s m ∨ (span k m).reg ∈ s.spilled :=
    (more m live).trans (accounted.met m live)
  unfold Sweep.openHole
  dsimp only
  split
  · rename_i owner found
    split
    · rename_i conditions
      simp only [Bool.and_eq_true] at conditions
      have active : owner ∈ s.active := by simpa [Sweep.isPlaced] using conditions.1.2
      refine { accounted with met := met, holes := ?_ }
      intro e member
      rcases List.mem_append.mp member with before | new
      · exact accounted.holes e before
      · rw [List.mem_singleton.mp new]
        exact ⟨accounted.active owner active, accounted.placed owner active⟩
    · exact { accounted with met := met }
  · exact { accounted with met := met }

theorem Accounted.visit {reserve : UInt32} (sums : SumsFit k cfg reserve)
    (accounted : Accounted k (cfg.fileSize - reserve) done s) (held : n < (Liveness.ofKernel k).store.size)
    (new : n ∉ done) (visited : Sweep.visit k (Liveness.ofKernel k) cfg s n = .ok s') :
    Accounted k (cfg.fileSize - reserve) (done ++ [n]) s' := by
  have roomy : Roomy k := fun n live => slotSize_pos (sums.slot _ _ live.intervalOf)
  have expired := accounted.expire (s.store.get n).min
  rcases visit_cases visited with ⟨hole, rfl⟩ | ⟨live, placed⟩
  · exact expired.openHole ⟨held, by rw [← (accounted.shape n).hole]; exact hole⟩
  · have live : Live k n := ⟨held, by rw [← (accounted.shape n).hole]; exact live⟩
    generalize s.expire (s.store.get n).min = t at expired placed
    rcases placed with ⟨offset, pin, pinned⟩ | ⟨-, taken | ⟨avoid, settles⟩⟩
    · rw [(expired.shape n).reg] at pin
      have small := sums.pin _ _ _ live.intervalOf pin
      obtain ⟨puts, kept | ⟨inside, claimed⟩⟩ := placePinned_puts pinned
      · exact expired.puts roomy live new puts small (by rw [kept]; exact expired.pool)
      · -- A claimed range lies in the window, so what is left of its block does too.
        rw [(expired.shape n).slot] at inside claimed
        have taken : s'.pool = t.pool.take offset (span k n).slot := by
          unfold FreePool.claim at claimed
          split at claimed
          · cases claimed
          · split at claimed
            · cases claimed
            · exact (Option.some.inj claimed).symm
        simp only [FreePool.contains, Bool.and_eq_true, decide_eq_true_eq, UInt32.le_iff_toNat_le,
          toNat_add small] at inside
        have bounded := expired.pool
        refine expired.puts roomy live new puts small ?_
        rw [taken]
        rw [← expired.window] at bounded ⊢
        exact bounded.take inside.2
    · obtain ⟨e, member, narrow, kept, puts⟩ := tryHole_puts taken
      obtain ⟨liveOwner, mapped⟩ := expired.holes e member
      have owner := expired.ends _ liveOwner mapped
      rw [(expired.shape n).slot, (expired.shape e.owner).slot, UInt32.le_iff_toNat_le] at narrow
      rw [(expired.shape e.owner).reg] at puts
      refine expired.puts roomy live new puts ?_ (by rw [kept]; exact expired.pool)
      change (place k t e.owner).toNat + _ < _
      omega
    · exact expired.settles roomy live new (sums.search _ _ live.intervalOf) settles rfl

theorem visits_accounted {reserve : UInt32} (sums : SumsFit k cfg reserve) (rest : List Nat)
    (accounted : Accounted k (cfg.fileSize - reserve) done s)
    (held : ∀ n ∈ rest, n < (Liveness.ofKernel k).store.size) (nodup : (done ++ rest).Nodup)
    (visited : rest.foldlM (Sweep.visit k (Liveness.ofKernel k) cfg) s = .ok s') :
    Accounted k (cfg.fileSize - reserve) (done ++ rest) s' := by
  induction rest generalizing done s with
  | nil =>
    rw [List.foldlM_nil, pure_ok] at visited
    rw [List.append_nil]
    exact visited ▸ accounted
  | cons n rest ih =>
    rw [List.foldlM_cons, bind_ok] at visited
    obtain ⟨t, first, others⟩ := visited
    have new : n ∉ done := fun member => (List.nodup_append.mp nodup).2.2 n member n List.mem_cons_self rfl
    have after := accounted.visit sums (held n List.mem_cons_self) new first
    have final := ih after (fun m member => held m (List.mem_cons_of_mem _ member)) (by simpa using nodup) others
    simpa using final

theorem start_accounted (k : Kernel) (cfg : SweepConfig) (reserve scratchBase : UInt32) :
    Accounted k (cfg.fileSize - reserve) [] (Sweep.start (Liveness.ofKernel k) cfg reserve scratchBase) := by
  have unplaced (n : Nat) : ¬ Mapped k (Sweep.start (Liveness.ofKernel k) cfg reserve scratchBase) n :=
    fun mapped => mapped rfl
  refine ⟨start_roster k cfg reserve scratchBase, rfl, bounded_new _ _, .nil, nofun, ?_, nofun, ?_, ?_, .nil, ?_⟩
  · exact fun n _ mapped => absurd mapped (unplaced n)
  · intro n _
    refine ⟨nofun, ?_⟩
    rintro (mapped | listed)
    · exact absurd mapped (unplaced n)
    · cases listed
  · exact fun n _ mapped => absurd mapped (unplaced n)
  · exact fun _ r => ⟨nofun, nofun⟩

/-- A sweep that succeeds has met every interval. -/
theorem run_accounted {reserve scratchBase : UInt32} (sums : SumsFit k cfg reserve)
    (ran : Sweep.run k (Liveness.ofKernel k) cfg reserve scratchBase = .ok s) :
    ∃ done, (∀ n, Live k n → n ∈ done) ∧ Accounted k (cfg.fileSize - reserve) done s := by
  obtain ⟨order, nodup, all, visited⟩ := run_visits ran
  refine ⟨order, fun n live => (all n).mpr live.held, ?_⟩
  exact visits_accounted sums order (start_accounted k cfg reserve scratchBase)
    (fun n member => (all n).mp member) (by simpa using nodup) visited

end

/-! ## Sweeps and allocations -/

/-- Where the registers of a kernel are after a sweep. -/
structure Located (k : Kernel) (s : Sweep) : Prop where
  one : ∀ r iv, (Liveness.ofKernel k).intervalOf? r = some iv →
    (s.offsets.contains r = true ↔ s.scratch.contains r = false)
  nodup : s.spilled.Nodup
  listed : ∀ r, r ∈ s.spilled ↔ s.scratch.contains r = true
  pinned : ∀ r iv offset, (Liveness.ofKernel k).intervalOf? r = some iv → k.pin? r = some offset →
    s.offsets.lookup? r = some offset ∧ r ∉ s.spilled

theorem Mapped.contains {k : Kernel} {s : Sweep} {n : Nat} :
    Mapped k s n ↔ s.offsets.contains (span k n).reg = true := by
  simp [Mapped, place, RegisterMap.contains]

theorem run_located {k : Kernel} {cfg : SweepConfig} {reserve scratchBase : UInt32} {s : Sweep}
    (sums : SumsFit k cfg reserve) (ran : Sweep.run k (Liveness.ofKernel k) cfg reserve scratchBase = .ok s)
    (fits : ScratchFits s) : Located k s := by
  obtain ⟨done, all, accounted⟩ := run_accounted sums ran
  have listed := accounted.listed fits
  refine ⟨?_, accounted.nodup, fun r => (listed r).symm, ?_⟩
  · intro r iv found
    obtain ⟨n, live, -, rfl⟩ := live_of_intervalOf found
    rw [← Mapped.contains, Bool.eq_false_iff, ne_eq, listed]
    exact ⟨accounted.once n live, ((accounted.met n live).mp (all n live)).resolve_right⟩
  · intro r iv offset found pin
    obtain ⟨n, live, -, rfl⟩ := live_of_intervalOf found
    have here := (run_pinned ran).1 n offset live pin
    have small := sums.pin _ _ _ live.intervalOf pin
    have mapped : Mapped k s n := by
      rw [Mapped, here]
      have positive : 0 < (span k n).slot.toNat := slotSize_pos (sums.slot _ _ live.intervalOf)
      rintro rfl
      change 4294967295 + _ < _ at small
      omega
    refine ⟨?_, accounted.once n live mapped⟩
    rw [RegisterMap.lookup?, if_pos (Mapped.contains.mp mapped)]
    exact congrArg some here

/-- Where nothing was spilled, every register in use has a place. -/
theorem run_unspilled {k : Kernel} {cfg : SweepConfig} {reserve scratchBase : UInt32} {s : Sweep}
    (sums : SumsFit k cfg reserve) (ran : Sweep.run k (Liveness.ofKernel k) cfg reserve scratchBase = .ok s)
    (unspilled : s.spilled = []) {a : Access} (member : a ∈ accesses k) :
    ∃ offset, s.offsets.lookup? a.operand.reg = some offset := by
  obtain ⟨done, all, accounted⟩ := run_accounted sums ran
  obtain ⟨iv, found⟩ := LivePaths.intervalOf_of_access member
  obtain ⟨n, live, -, reg⟩ := live_of_intervalOf found
  have mapped : Mapped k s n := by
    rcases (accounted.met n live).mp (all n live) with mapped | listed
    · exact mapped
    · rw [unspilled] at listed
      cases listed
  rw [Mapped.contains, reg] at mapped
  exact ⟨_, by rw [RegisterMap.lookup?, if_pos mapped]⟩

/-- The spill loop ends with what the sweep returns; a sweep leaves every register in exactly one of the
register file and scratch memory, the spilled ones listed once and the pinned ones at their pins; and in
an allocation every register that an instruction names has a place, so that emission finds it. -/
theorem registers_accounted (k : Kernel) (cfg : SweepConfig) :
    (∀ lv n avoid s, Settles k lv cfg n avoid s (Sweep.placeOrSpill k lv cfg n avoid s.active.length s) ∧
      ∀ r, Settles k lv cfg n avoid s r → r = Sweep.placeOrSpill k lv cfg n avoid s.active.length s) ∧
    (∀ reserve scratchBase s, SumsFit k cfg reserve →
      Sweep.run k (Liveness.ofKernel k) cfg reserve scratchBase = .ok s → ScratchFits s → Located k s) ∧
    ∀ a log, Allocation.ofKernel k cfg = .ok (a, log) →
      (∀ reserve, Reserved k cfg reserve → SumsFit a.kernel cfg reserve) →
      (∀ i ∈ a.kernel.code, ∀ o ∈ i.registers, ∃ offset, a.offsets.lookup? o.reg = some offset) ∧
      ∀ (c : Context) e, c.emit a = .error e → ∀ i ∈ a.kernel.code, ∀ o ∈ i.registers,
        e.diagnostic.cause ≠ .placement (.unplaced o.reg) := by
  refine ⟨?_, fun reserve scratchBase s sums ran fits => run_located sums ran fits, ?_⟩
  · intro lv n avoid s
    have settles : Settles k lv cfg n avoid s (Sweep.placeOrSpill k lv cfg n avoid s.active.length s) :=
      placeOrSpill_settles _ (Nat.le_refl _)
    exact ⟨settles, fun r other => other.unique settles⟩
  · intro a log allocated sums
    obtain ⟨reserve, scratch, s, reserved, ran, offsets, unspilled⟩ := ofKernel_sweep allocated
    have placed : ∀ i ∈ a.kernel.code, ∀ o ∈ i.registers, ∃ offset, a.offsets.lookup? o.reg = some offset := by
      intro i member o operand
      obtain ⟨p, here⟩ := List.mem_iff_getElem?.mp member
      rw [show a.offsets = s.offsets from offsets]
      exact run_unspilled (sums reserve reserved) ran unspilled (a := ⟨p, i, o⟩)
        (mem_accesses.mpr ⟨here, operand⟩)
    refine ⟨placed, fun c e failed i member o operand named => ?_⟩
    obtain ⟨offset, found⟩ := placed i member o operand
    rw [Unplaced.emit_truthful c a e o.reg failed named] at found
    cases found

/-- Three registers beside a pinned one, all live together. -/
def crowded : Kernel where
  name := "crowded"
  simdWidth := 8
  code :=
    [{ op := .mov, dst := .vector ⟨0⟩ .ud, src := [.immediate .ud 1 false false] },
      { op := .mov, dst := .vector ⟨1⟩ .ud, src := [.immediate .ud 2 false false] },
      { op := .mov, dst := .vector ⟨2⟩ .ud, src := [.immediate .ud 3 false false] },
      { op := .mov, dst := .vector ⟨3⟩ .ud, src := [.immediate .ud 4 false false] },
      { op := .compare, src := [.vector ⟨0⟩ .ud, .immediate .ud 0 false false], condition := .eq },
      { op := .compare, src := [.vector ⟨1⟩ .ud, .immediate .ud 0 false false], condition := .eq },
      { op := .compare, src := [.vector ⟨2⟩ .ud, .immediate .ud 0 false false], condition := .eq },
      { op := .compare, src := [.vector ⟨3⟩ .ud, .immediate .ud 0 false false], condition := .eq },
      { op := .endThread }]
  pinned := ⟨[(0, 0)]⟩
  next := 4

/-- A register file of three registers. -/
def threeRegisters : SweepConfig := ⟨96, 0, true, .longest, 0⟩

theorem registers_accounted_crowded :
    (∃ s, Sweep.run crowded (Liveness.ofKernel crowded) threeRegisters 64 0 = .ok s ∧
      s.spilled = [⟨1⟩, ⟨2⟩, ⟨3⟩] ∧ Located crowded s) ∧
    ∃ a log, Allocation.ofKernel crowded threeRegisters = .ok (a, log) ∧ a.kernel.code.length = 15 ∧
      (∀ i ∈ a.kernel.code, ∀ o ∈ i.registers, ∃ offset, a.offsets.lookup? o.reg = some offset) ∧
      ∀ (c : Context) e, c.emit a = .error e → ∀ i ∈ a.kernel.code, ∀ o ∈ i.registers,
        e.diagnostic.cause ≠ .placement (.unplaced o.reg) := by
  obtain ⟨-, sweeps, allocations⟩ := registers_accounted crowded threeRegisters
  constructor
  · have outcome : (Sweep.run crowded (Liveness.ofKernel crowded) threeRegisters 64 0).toOption.map
        (fun s => (s.spilled, s.log.all fun e => match e with
          | .spilled iv offset _ => offset.toNat + (Sweep.scratchBytes iv).toNat < 4294967296
          | _ => true)) = some ([⟨1⟩, ⟨2⟩, ⟨3⟩], true) := by
      simp only [Sweep.run, Sweep.start, Liveness.ofKernel, sorted_insertion]
      decide +kernel
    have fits : ((Liveness.ofKernel crowded).store.intervals.all fun iv =>
        iv.size.toNat + 32 < 4294967296 &&
        (threeRegisters.fileSize - 64).toNat + iv.slot.toNat + 64 < 4294967296 &&
        crowded.pinned.entries.all fun pin => pin.2.toNat + iv.slot.toNat < 4294967296) = true := by
      decide +kernel
    simp only [List.all_eq_true, Bool.and_eq_true, decide_eq_true_eq] at fits
    obtain ⟨s, ran, same⟩ := toOption_map_some.mp outcome
    simp only [Prod.mk.injEq, List.all_eq_true] at same
    refine ⟨s, ran, same.1, sweeps 64 0 s (sumsFit_of_all fun iv member => ?_) ran ?_⟩
    · obtain ⟨⟨size, window⟩, pins⟩ := fits iv member
      exact ⟨size, window, pins⟩
    · intro iv offset reused event
      simpa using same.2 _ event
  · have outcome : (Allocation.ofKernel crowded threeRegisters).toOption.map
        (fun r => (r.1.kernel.code.length, (Liveness.ofKernel r.1.kernel).store.intervals.all fun iv =>
          iv.size.toNat + 32 < 4294967296 && 96 + iv.slot.toNat + 64 < 4294967296 &&
          r.1.kernel.pinned.entries.all fun pin => pin.2.toNat + iv.slot.toNat < 4294967296)) =
        some (15, true) := by
      simp only [Allocation.ofKernel, Allocation.sweep, Allocation.rounds, Allocation.maxRounds, Sweep.run, Sweep.start,
        Liveness.ofKernel, sorted_insertion]
      decide +kernel
    obtain ⟨r, allocated, same⟩ := toOption_map_some.mp outcome
    simp only [Prod.mk.injEq, List.all_eq_true, Bool.and_eq_true, decide_eq_true_eq] at same
    refine ⟨r.1, r.2, allocated, same.1, allocations r.1 r.2 allocated fun reserve reserved => ?_⟩
    refine sumsFit_of_all fun iv member => ?_
    obtain ⟨⟨size, window⟩, pins⟩ := same.2 iv member
    have small : (threeRegisters.fileSize - reserve).toNat ≤ 96 := by
      have reserves : (Allocation.reserveFor threeRegisters (Liveness.ofKernel crowded)).size = 64 := by
        decide +kernel
      rcases reserved with rfl | rfl
      · decide
      · rw [reserves]
        decide
    exact ⟨size, by omega, pins⟩

end GpuCodegen.Placement
