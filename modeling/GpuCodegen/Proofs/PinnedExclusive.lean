import GpuCodegen.Proofs.RegistersAccounted

/-! Pins and the window. The pool hands out the bytes of a window: everything between the reserved low part
of the register file and its end, or the scratch message header once spill code is needed. A pin inside the
window is taken from the pool and one outside it is never handed out, so such a place is exclusive. A pin that
crosses an end of the window is compared with the places held at that time, but its bytes inside stay in the
pool for whatever starts later. The header is never compared with pins at all. -/

namespace GpuCodegen.Placement
open LiveIntervals Outcome

/-- A range lies partly inside and partly outside a window. -/
def Crosses (base limit offset size : UInt32) : Prop :=
  ¬ (base.toNat ≤ offset.toNat ∧ offset.toNat + size.toNat ≤ limit.toNat) ∧
    base.toNat < offset.toNat + size.toNat ∧ offset.toNat < limit.toNat

instance (base limit offset size : UInt32) : Decidable (Crosses base limit offset size) :=
  inferInstanceAs (Decidable (_ ∧ _))

instance (offset size offset' size' : UInt32) : Decidable (Apart offset size offset' size') :=
  inferInstanceAs (Decidable (_ ∨ _))

/-- Where the window of an allocation ends. -/
def windowEnd (cfg : SweepConfig) (a : Allocation) : UInt32 := if a.hasSpills then a.header else cfg.fileSize

/-! ## Sweeps -/

section
variable {k : Kernel} {cfg : SweepConfig} {reserve scratchBase : UInt32} {s : Sweep} {m n : Nat} {offset : UInt32}

/-- A pinned register and one without a pin that are live together are apart, unless the pin crosses an end of
the window and the other one is placed later. -/
theorem pinned_aside (sums : SumsFit k cfg reserve)
    (ran : Sweep.run k (Liveness.ofKernel k) cfg reserve scratchBase = .ok s) (liveM : Live k m) (liveN : Live k n)
    (mapped : Mapped k s n) (pinned : k.pin? (span k m).reg = some offset) (free : k.pin? (span k n).reg = none)
    (overlap : Overlap k m n)
    (later : Crosses cfg.reservedLow (cfg.fileSize - reserve) offset (span k m).slot →
      (span k n).min < (span k m).min) : Aside k s m n := by
  obtain ⟨done, last, inv⟩ := run_invariant sums ran
  have here := (run_pinned ran).1 m offset liveM pinned
  have differs : m ≠ n := by
    rintro rfl
    rw [free] at pinned
    cases pinned
  have mappedM : Mapped k s m := by
    rw [Mapped, here]
    exact not_unmapped sums liveM pinned
  have crosses (straddles : Straddles k s m) : (span k n).min < (span k m).min := by
    unfold Straddles Inside at straddles
    rw [here, inv.window.1, inv.window.2] at straddles
    exact later straddles
  exact aside_of_pinned ran pinned (inv.pairs m n liveM liveN differs mappedM mapped overlap crosses
    fun straddles => absurd straddles ((inv.lies n liveN mapped).free free).not_straddles)

/-- What lies past the window belongs to pins. -/
theorem pinned_of_past (sums : SumsFit k cfg reserve)
    (ran : Sweep.run k (Liveness.ofKernel k) cfg reserve scratchBase = .ok s) (live : Live k n) (mapped : Mapped k s n)
    (past : ¬ Apart (place k s n) (span k n).slot (cfg.fileSize - reserve) 32) :
    ∃ pin, k.pin? (span k n).reg = some pin ∧ place k s n = pin := by
  obtain ⟨done, last, inv⟩ := run_invariant sums ran
  have lies := inv.lies n live mapped
  cases pinned : k.pin? (span k n).reg with
  | some pin => exact ⟨pin, rfl, lies.pinned pin pinned⟩
  | none =>
    have inside := lies.free pinned
    unfold Inside at inside
    rw [inv.window.2] at inside
    exact absurd (.inl inside.2) past

end

/-! ## Allocations -/

/-- Without spills there is no header; it is in the reserve otherwise. -/
theorem ofKernel_header {k : Kernel} {cfg : SweepConfig} {r : Allocation × List AllocationEvent}
    (allocated : Allocation.ofKernel k cfg = .ok r) :
    r.1.header = unmapped ∨ r.1.header = (Allocation.reserveFor cfg (Liveness.ofKernel k)).header := by
  obtain ⟨s, -, ⟨-, same⟩ | ⟨-, rounding⟩⟩ := Allocation.ofKernel_cases allocated
  · exact .inl (by rw [same])
  · exact .inr rounding.header

/-- The last sweep of an allocation has a window up to the header, or the whole rest of the register file. -/
theorem ofKernel_window {k : Kernel} {cfg : SweepConfig} {r : Allocation × List AllocationEvent}
    (allocated : Allocation.ofKernel k cfg = .ok r) :
    ∃ reserve scratch s, Reserved k cfg reserve ∧
      Sweep.run r.1.kernel (Liveness.ofKernel r.1.kernel) cfg reserve scratch = .ok s ∧
      r.1.offsets = s.offsets ∧ s.spilled = [] ∧
      (r.1.header = cfg.fileSize - reserve ∨ r.1.header = unmapped ∧ reserve = 0) := by
  obtain ⟨s, swept, ⟨unspilled, same⟩ | ⟨-, rounding⟩⟩ := Allocation.ofKernel_cases allocated
  · rw [same]
    exact ⟨0, 0, s, .inl rfl, swept, rfl, unspilled, .inr ⟨rfl, rfl⟩⟩
  · obtain ⟨scratch, s', ran, offsets, unspilled⟩ := rounding.sweep
    exact ⟨_, scratch, s', .inr rfl, ran, offsets, unspilled, .inl rounding.header⟩

/-- With a register to place, the header of an allocation that spills is where the window of its last sweep
ends; without spills that is the end of the register file. -/
theorem windowEnd_eq {cfg : SweepConfig} {a : Allocation} {reserve : UInt32} {r : VReg} {iv : Interval}
    (sums : SumsFit a.kernel cfg reserve) (found : (Liveness.ofKernel a.kernel).intervalOf? r = some iv)
    (header : a.header = cfg.fileSize - reserve ∨ a.header = unmapped ∧ reserve = 0) :
    windowEnd cfg a = cfg.fileSize - reserve := by
  unfold windowEnd Allocation.hasSpills
  rcases header with known | ⟨none, rfl⟩
  · have small := sums.search r iv found
    have mapped : cfg.fileSize - reserve ≠ unmapped := by
      intro wraps
      rw [wraps] at small
      change 4294967295 + _ + _ < _ at small
      omega
    rw [known, if_pos (by simpa using mapped)]
  · simp [none]

/-- A pinned register sits at its pin, and shares a byte with a register without a pin that is live with it only
if the pin crosses an end of the window and the other register starts no earlier. The scratch header is shared
by exactly those registers whose pin meets it. -/
theorem pinned_exclusive (k : Kernel) (cfg : SweepConfig) (a : Allocation) (log : List AllocationEvent)
    (allocated : Allocation.ofKernel k cfg = .ok (a, log))
    (sums : ∀ reserve, Reserved k cfg reserve → SumsFit a.kernel cfg reserve) :
    (∀ r offset iv, a.kernel.pin? r = some offset → (Liveness.ofKernel a.kernel).intervalOf? r = some iv →
      a.offsets.get r = offset ∧
      ∀ r' iv', a.kernel.pin? r' = none → (Liveness.ofKernel a.kernel).intervalOf? r' = some iv' →
        iv.overlaps iv' = true →
        (Crosses cfg.reservedLow (windowEnd cfg a) offset iv.slot → iv'.min < iv.min) →
        Apart offset iv.slot (a.offsets.get r') iv'.slot) ∧
    ∀ r iv, (Liveness.ofKernel a.kernel).intervalOf? r = some iv → a.hasSpills = true →
      (¬ Apart (a.offsets.get r) iv.slot a.header 32 ↔
        ∃ pin, a.kernel.pin? r = some pin ∧ ¬ Apart pin iv.slot a.header 32) := by
  obtain ⟨reserve, scratch, s, reserved, ran, offsets, unspilled, header⟩ := ofKernel_window allocated
  have sums := sums reserve reserved
  obtain ⟨done, all, accounted⟩ := run_accounted sums ran
  have mapped (n : Nat) (live : Live a.kernel n) : Mapped a.kernel s n := by
    rcases (accounted.met n live).mp (all n live) with mapped | listed
    · exact mapped
    · rw [unspilled] at listed
      cases listed
  have placed := (run_pinned ran).1
  rw [show a.offsets = s.offsets from offsets]
  constructor
  · intro r offset iv pinned found
    rw [windowEnd_eq sums found header]
    obtain ⟨m, liveM, rfl, rfl⟩ := live_of_intervalOf found
    have here := placed m offset liveM pinned
    refine ⟨here, fun r' iv' free found' overlap later => ?_⟩
    obtain ⟨n, liveN, rfl, rfl⟩ := live_of_intervalOf found'
    have overlap : Overlap a.kernel m n := by simpa [Interval.overlaps, Overlap] using overlap
    have aside := pinned_aside sums ran liveM liveN (mapped n liveN) pinned free overlap later
    rwa [Aside, here] at aside
  · intro r iv found spills
    have top := windowEnd_eq sums found header
    rw [windowEnd, if_pos spills] at top
    obtain ⟨n, live, rfl, rfl⟩ := live_of_intervalOf found
    rw [top]
    constructor
    · intro shares
      obtain ⟨pin, pinned, here⟩ := pinned_of_past sums ran live (mapped n live) shares
      exact ⟨pin, pinned, here ▸ shares⟩
    · rintro ⟨pin, pinned, shares⟩
      rw [show s.offsets.get (span a.kernel n).reg = pin from placed n pin live pinned]
      exact shares

/-! ## Pins that nothing keeps -/

/-- Five registers that are live together, the first of them pinned. -/
def fiveLive (pin : UInt32) : Kernel where
  name := "fiveLive"
  simdWidth := 8
  code := ((List.range 5).map fun n =>
      { op := .mov, dst := .vector ⟨UInt32.ofNat n⟩ .ud, src := [.immediate .ud 1 false false] }) ++
    ((List.range 5).map fun n =>
      { op := .compare, src := [.vector ⟨UInt32.ofNat n⟩ .ud, .immediate .ud 0 false false], condition := .eq }) ++
    [{ op := .endThread }]
  pinned := ⟨[(0, pin)]⟩
  next := 5

/-- A register file of four registers. -/
def fourRegisters : SweepConfig := ⟨128, 0, true, .longest, 0⟩

/-- A pin inside the window keeps its register apart from the one that is not spilled, and off the header. -/
theorem pinned_exclusive_fiveLive :
    ∃ a log iv, Allocation.ofKernel (fiveLive 0) fourRegisters = .ok (a, log) ∧ a.hasSpills = true ∧
      a.header = 64 ∧ a.kernel.pin? ⟨1⟩ = none ∧ a.offsets.get ⟨1⟩ = 32 ∧
      (Liveness.ofKernel a.kernel).intervalOf? ⟨0⟩ = some iv ∧ a.offsets.get ⟨0⟩ = 0 ∧
      (∀ r' iv', a.kernel.pin? r' = none → (Liveness.ofKernel a.kernel).intervalOf? r' = some iv' →
        iv.overlaps iv' = true → Apart 0 iv.slot (a.offsets.get r') iv'.slot) ∧
      ∀ r iv, (Liveness.ofKernel a.kernel).intervalOf? r = some iv → a.hasSpills = true →
        (¬ Apart (a.offsets.get r) iv.slot a.header 32 ↔
          ∃ pin, a.kernel.pin? r = some pin ∧ ¬ Apart pin iv.slot a.header 32) := by
  have outcome : (Allocation.ofKernel (fiveLive 0) fourRegisters).toOption.map
      (fun r => (r.1.header, (r.1.kernel.pin? ⟨0⟩, r.1.kernel.pin? ⟨1⟩), r.1.offsets.get ⟨1⟩,
        (Liveness.ofKernel r.1.kernel).intervalOf? ⟨0⟩,
        (Liveness.ofKernel r.1.kernel).store.intervals.all fun iv =>
          iv.size.toNat + 32 < 4294967296 && 128 + iv.slot.toNat + 64 < 4294967296 &&
          r.1.kernel.pinned.entries.all fun pin => pin.2.toNat + iv.slot.toNat < 4294967296)) =
      some (64, (some 0, none), 32,
        some { reg := ⟨0⟩, min := 0, max := 8, accesses := 2, block := 0, size := 32 }, true) := by
    simp only [Allocation.ofKernel, Allocation.sweep, Allocation.rounds, Allocation.maxRounds, Sweep.run, Sweep.start,
      Liveness.ofKernel, sorted_insertion]
    decide +kernel
  obtain ⟨r, allocated, same⟩ := toOption_map_some.mp outcome
  simp only [Prod.mk.injEq, List.all_eq_true, Bool.and_eq_true, decide_eq_true_eq] at same
  obtain ⟨header, ⟨pin, free⟩, beside, found, small⟩ := same
  have spills : r.1.hasSpills = true := by
    rw [Allocation.hasSpills, header]
    decide
  have sums (reserve : UInt32) (reserved : Reserved (fiveLive 0) fourRegisters reserve) :
      SumsFit r.1.kernel fourRegisters reserve := by
    refine sumsFit_of_all fun iv member => ?_
    obtain ⟨⟨size, window⟩, pins⟩ := small iv member
    have bound : (fourRegisters.fileSize - reserve).toNat ≤ 128 := by
      have reserves : (Allocation.reserveFor fourRegisters (Liveness.ofKernel (fiveLive 0))).size = 64 := by
        decide +kernel
      rcases reserved with rfl | rfl
      · decide
      · rw [reserves]
        decide
    exact ⟨size, by omega, pins⟩
  obtain ⟨exclusive, headers⟩ := pinned_exclusive (fiveLive 0) fourRegisters r.1 r.2 allocated sums
  obtain ⟨here, apart⟩ := exclusive ⟨0⟩ 0 _ pin found
  have inside : ¬ Crosses fourRegisters.reservedLow (windowEnd fourRegisters r.1) 0 (slotSize 32) := by
    rw [windowEnd, if_pos spills, header]
    decide
  exact ⟨r.1, r.2, _, allocated, spills, header, free, beside, found, here,
    fun r' iv' unpinned found' overlap => apart r' iv' unpinned found' overlap fun crosses => absurd crosses inside,
    headers⟩

/-- Two registers of two general registers each, the first pinned across the end of the reserved low part. -/
def straddlingPin : Kernel where
  name := "straddlingPin"
  simdWidth := 16
  code :=
    [{ op := .mov, dst := .vector ⟨0⟩ .ud, src := [.immediate .ud 1 false false] },
      { op := .mov, dst := .vector ⟨1⟩ .ud, src := [.immediate .ud 2 false false] },
      { op := .add, dst := .vector ⟨1⟩ .ud, src := [.vector ⟨0⟩ .ud, .vector ⟨1⟩ .ud] },
      { op := .endThread }]
  pinned := ⟨[(0, 0)]⟩
  next := 2

/-- The upper half of the pinned register is handed out while its value is awaited. -/
theorem pinned_shared :
    ¬ ∀ (k : Kernel) (cfg : SweepConfig) (a : Allocation) (log : List AllocationEvent) (r r' : VReg)
      (offset : UInt32) (iv iv' : Interval),
      Allocation.ofKernel k cfg = .ok (a, log) → k.pin? r = some offset →
      (Liveness.ofKernel a.kernel).intervalOf? r = some iv → offset.toNat + iv.slot.toNat < 4294967296 →
      a.kernel.pin? r' = none → (Liveness.ofKernel a.kernel).intervalOf? r' = some iv' →
      iv.overlaps iv' = true → Apart offset iv.slot (a.offsets.get r') iv'.slot := by
  intro exclusive
  have outcome : (Allocation.ofKernel straddlingPin wholeFile).toOption.map
      (fun r => (r.1.kernel.pin? ⟨1⟩, r.1.offsets.get ⟨1⟩, (Liveness.ofKernel r.1.kernel).intervalOf? ⟨0⟩,
        (Liveness.ofKernel r.1.kernel).intervalOf? ⟨1⟩)) =
      some (none, 32, some { reg := ⟨0⟩, min := 0, max := 2, accesses := 2, block := 0, size := 64 },
        some { reg := ⟨1⟩, min := 1, max := 2, accesses := 3, block := 0, size := 64 }) := by
    simp only [Allocation.ofKernel, Allocation.sweep, Sweep.run, Sweep.start, Liveness.ofKernel,
      sorted_insertion]
    decide +kernel
  obtain ⟨r, allocated, same⟩ := toOption_map_some.mp outcome
  simp only [Prod.mk.injEq] at same
  obtain ⟨free, beside, found, found'⟩ := same
  have apart := exclusive _ _ r.1 r.2 ⟨0⟩ ⟨1⟩ 0 _ _ allocated rfl found (by decide) free found' (by decide)
  rw [beside] at apart
  exact absurd apart (by decide)

/-- A pin in the reserve is where every reload and write-back puts the message header. -/
theorem header_shared :
    ¬ ∀ (k : Kernel) (cfg : SweepConfig) (a : Allocation) (log : List AllocationEvent) (r : VReg)
      (offset : UInt32) (iv : Interval),
      Allocation.ofKernel k cfg = .ok (a, log) → a.hasSpills = true → k.pin? r = some offset →
      (Liveness.ofKernel a.kernel).intervalOf? r = some iv → offset.toNat + iv.slot.toNat < 4294967296 →
      Apart offset iv.slot a.header 32 := by
  intro exclusive
  have outcome : (Allocation.ofKernel (fiveLive 64) fourRegisters).toOption.map
      (fun r => (r.1.header, (Liveness.ofKernel r.1.kernel).intervalOf? ⟨0⟩)) =
      some (64, some { reg := ⟨0⟩, min := 0, max := 7, accesses := 2, block := 0, size := 32 }) := by
    simp only [Allocation.ofKernel, Allocation.sweep, Allocation.rounds, Allocation.maxRounds, Sweep.run, Sweep.start,
      Liveness.ofKernel, sorted_insertion]
    decide +kernel
  obtain ⟨r, allocated, same⟩ := toOption_map_some.mp outcome
  simp only [Prod.mk.injEq] at same
  obtain ⟨header, found⟩ := same
  have spills : r.1.hasSpills = true := by
    rw [Allocation.hasSpills, header]
    decide
  have apart := exclusive _ _ r.1 r.2 ⟨0⟩ 64 _ allocated spills rfl found (by decide)
  rw [header] at apart
  exact absurd apart (by decide)

end GpuCodegen.Placement
