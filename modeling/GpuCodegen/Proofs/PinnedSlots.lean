import GpuCodegen.Proofs.LivePaths
import GpuCodegen.Proofs.StraightLineSweep

/-! Pinned registers in an allocation. A sweep puts a pinned register at its pin and nowhere else, and
never into another register's hole; its own place is never lent. So from its first access to its last
nothing else uses its bytes. Before its first access the place is not kept: a register that ends there
may have used it, and what the bytes held at the start is lost. -/

namespace GpuCodegen.Placement
open LiveIntervals Outcome

/-! ## What a visit does to pinned registers -/

/-- A step that leaves a pinned register's place alone or gives it its pin, and that lends no place to
one. -/
structure Respects (k : Kernel) (s s' : Sweep) : Prop where
  reg : ∀ n, (s'.store.get n).reg = (s.store.get n).reg
  hole : ∀ n, (s'.store.get n).hole = (s.store.get n).hole
  places : ∀ r offset, k.pin? r = some offset →
    s'.offsets.get r = s.offsets.get r ∨ s'.offsets.get r = offset
  told : ∀ iv owner hole, PlacementEvent.borrowed iv owner hole ∈ s'.log →
    PlacementEvent.borrowed iv owner hole ∈ s.log ∨ k.pin? iv.reg = none

section
variable {k : Kernel} {lv : Liveness} {cfg : SweepConfig} {s s' s'' : Sweep}

theorem Respects.refl (k : Kernel) (s : Sweep) : Respects k s s :=
  ⟨fun _ => rfl, fun _ => rfl, fun _ _ _ => .inl rfl, fun _ _ _ => .inl⟩

theorem Respects.trans (first : Respects k s s') (second : Respects k s' s'') : Respects k s s'' := by
  refine ⟨fun n => (second.reg n).trans (first.reg n), fun n => (second.hole n).trans (first.hole n), ?_, ?_⟩
  · intro r offset pinned
    rcases second.places r offset pinned with kept | moved
    · rw [kept]
      exact first.places r offset pinned
    · exact .inr moved
  · intro iv owner hole event
    rcases second.told iv owner hole event with before | free
    · exact first.told iv owner hole before
    · exact .inr free

/-- A step that touches neither store nor places, and tells of no loan. -/
theorem Respects.of_same (store : s'.store = s.store) (offsets : s'.offsets = s.offsets)
    (log : ∀ iv owner hole, PlacementEvent.borrowed iv owner hole ∈ s'.log →
      PlacementEvent.borrowed iv owner hole ∈ s.log) : Respects k s s' := by
  refine ⟨fun n => by rw [store], fun n => by rw [store], ?_, fun iv owner hole event => .inl (log _ _ _ event)⟩
  intro r offset _
  rw [offsets]
  exact .inl rfl

theorem deactivate_same (s : Sweep) (n : Nat) :
    (s.deactivate n).store = s.store ∧ (s.deactivate n).offsets = s.offsets ∧
      (s.deactivate n).log = s.log := by
  unfold Sweep.deactivate
  dsimp only
  split
  · exact ⟨rfl, rfl, rfl⟩
  · split <;> exact ⟨rfl, rfl, rfl⟩

theorem expireOne_same (s : Sweep) (n : Nat) :
    (s.expireOne n).store = s.store ∧ (s.expireOne n).offsets = s.offsets ∧
      (s.expireOne n).log = s.log := by
  unfold Sweep.expireOne
  split
  · exact ⟨rfl, rfl, rfl⟩
  · split
    · exact deactivate_same s n
    · exact ⟨rfl, rfl, rfl⟩

theorem expire_respects (start : Int) : Respects k s (s.expire start) := by
  have along (ns : List Nat) (s : Sweep) : (ns.foldl Sweep.expireOne s).store = s.store ∧
      (ns.foldl Sweep.expireOne s).offsets = s.offsets ∧ (ns.foldl Sweep.expireOne s).log = s.log := by
    induction ns generalizing s with
    | nil => exact ⟨rfl, rfl, rfl⟩
    | cons n ns ih =>
      obtain ⟨store, offsets, log⟩ := expireOne_same s n
      rw [List.foldl_cons, ← store, ← offsets, ← log]
      exact ih (s.expireOne n)
  obtain ⟨store, offsets, log⟩ := along (s.ending.takeWhile fun n => decide ((s.store.get n).max < start)) s
  exact .of_same store offsets fun iv owner hole event => log ▸ event

theorem openHole_respects (n : Nat) : Respects k s (s.openHole lv cfg n) := by
  unfold Sweep.openHole
  dsimp only
  split
  · split
    · exact .of_same rfl rfl fun _ _ _ => id
    · exact .refl k s
  · exact .refl k s

/-- An interval takes a place that is its pin if it has one. -/
theorem assign_respects {n : Nat} {offset : UInt32} (pool : FreePool) {e : PlacementEvent}
    (own : ∀ pin, k.pin? (s.store.get n).reg = some pin → offset = pin)
    (plain : ∀ iv owner hole, e ≠ .borrowed iv owner hole) :
    Respects k s (({ s with pool := pool }.assign n offset).note e) := by
  refine ⟨fun _ => rfl, fun _ => rfl, ?_, ?_⟩
  · intro r pin pinned
    simp only [Sweep.note, Sweep.assign]
    by_cases same : r = (s.store.get n).reg
    · rw [same, RegisterMap.get_insert_self]
      exact .inr (own pin (same ▸ pinned))
    · rw [RegisterMap.get_insert_of_ne _ same]
      exact .inl rfl
  · intro iv owner hole event
    rcases List.mem_append.mp event with before | added
    · exact .inl before
    · exact absurd (List.mem_singleton.mp added).symm (plain iv owner hole)

theorem placePinned_respects {n : Nat} {offset : UInt32}
    (pinned : k.pin? (s.store.get n).reg = some offset) (placed : s.placePinned n offset = .ok s') :
    Respects k s s' ∧ s'.offsets.get (s.store.get n).reg = offset := by
  have own (pin : UInt32) (known : k.pin? (s.store.get n).reg = some pin) : offset = pin := by
    rw [pinned] at known
    exact Option.some.inj known
  have here (pool : FreePool) (e : PlacementEvent) :
      (({ s with pool := pool }.assign n offset).note e).offsets.get (s.store.get n).reg = offset := by
    simp only [Sweep.note, Sweep.assign, RegisterMap.get_insert_self]
  unfold Sweep.placePinned at placed
  dsimp only at placed
  split at placed
  · split at placed
    · cases placed
      exact ⟨assign_respects _ own (by simp), here _ _⟩
    · cases placed
  · split at placed
    · cases placed
    · cases placed
      exact ⟨assign_respects s.pool own (by simp), here s.pool _⟩

/-- Only a register without a pin is put into a hole. -/
theorem tryHole_respects {n : Nat} (free : k.pin? (s.store.get n).reg = none)
    (taken : s.tryHole cfg n = some s') : Respects k s s' := by
  unfold Sweep.tryHole at taken
  dsimp only at taken
  split at taken
  · cases taken
  · split at taken
    · cases taken
    · cases taken
      have flagged (m : Nat) :
          ((s.store.modify n fun iv => { iv with reused := true }).get m).reg = (s.store.get m).reg ∧
          ((s.store.modify n fun iv => { iv with reused := true }).get m).hole = (s.store.get m).hole := by
        unfold IntervalStore.get IntervalStore.modify
        simp only [List.getD_eq_getElem?_getD, List.getElem?_modify]
        cases s.store.intervals[m]? with
        | none => exact ⟨rfl, rfl⟩
        | some iv =>
          by_cases here : n = m
          · simp [here]
          · simp [here]
      refine ⟨fun m => (flagged m).1, fun m => (flagged m).2, ?_, ?_⟩
      · intro r pin pinned
        left
        simp only [Sweep.note, Sweep.assign, (flagged n).1]
        refine RegisterMap.get_insert_of_ne _ ?_ _
        rintro rfl
        rw [free] at pinned
        cases pinned
      · intro iv owner hole event
        rcases List.mem_append.mp event with before | added
        · exact .inl before
        · cases List.mem_singleton.mp added
          right
          rw [show ((s.store.modify n fun iv => { iv with reused := true }).get n).reg = _ from (flagged n).1]
          exact free

/-- Only a register without a pin is spilled. -/
theorem spill_respects {n : Nat} (free : k.pin? (s.store.get n).reg = none)
    (spilled : s.spill lv cfg n = .ok s') : Respects k s s' := by
  have unplaced : Respects k s (s.unplace n) := by
    unfold Sweep.unplace
    split
    · obtain ⟨store, offsets, log⟩ := deactivate_same s n
      dsimp only
      refine ⟨fun m => by rw [store], fun m => by rw [store], ?_, fun iv owner hole event => .inl ?_⟩
      · intro r pin pinned
        left
        rw [offsets, store]
        refine RegisterMap.get_erase_of_ne _ ?_
        rintro rfl
        rw [free] at pinned
        cases pinned
      · rw [← log]
        exact event
    · exact .refl k s
  refine unplaced.trans ?_
  unfold Sweep.spill at spilled
  dsimp only at spilled
  generalize s.unplace n = t at spilled ⊢
  split at spilled <;> split at spilled <;> cases spilled <;>
    exact .of_same rfl rfl fun _ _ _ event => by simpa [Sweep.note] using event

theorem placeOrSpill_respects {n : Nat} {avoid : Option Nat} (fuel : Nat)
    (free : k.pin? (s.store.get n).reg = none)
    (placed : Sweep.placeOrSpill k lv cfg n avoid fuel s = .ok s') : Respects k s s' := by
  have own (offset pin : UInt32) (known : k.pin? (s.store.get n).reg = some pin) : offset = pin := by
    rw [free] at known
    cases known
  induction fuel generalizing s with
  | zero =>
    unfold Sweep.placeOrSpill at placed
    dsimp only at placed
    split at placed
    · cases placed
      exact assign_respects _ (own _) (by simp)
    · split at placed
      · cases placed
      · exact spill_respects free placed
  | succ fuel ih =>
    unfold Sweep.placeOrSpill at placed
    dsimp only at placed
    split at placed
    · cases placed
      exact assign_respects _ (own _) (by simp)
    · split at placed
      · cases placed
      · cases victim : s.victim? k (s.store.get n) with
        | none =>
          rw [victim] at placed
          exact spill_respects free placed
        | some v =>
          rw [victim] at placed
          have spillable := (victim_spec victim).2
          simp only [Sweep.spillable, Bool.and_eq_true, Option.isNone_iff_eq_none] at spillable
          dsimp only at placed
          split at placed
          · rename_i t spilled
            have first := spill_respects spillable.1.1 spilled
            rw [← first.reg n] at free own
            exact first.trans (ih free placed own)
          · cases placed

/-- A visit respects pins, and puts a pinned register at its own. -/
theorem visit_respects {n : Nat} (visited : Sweep.visit k lv cfg s n = .ok s') :
    Respects k s s' ∧ ∀ offset, (s.store.get n).hole = false →
      k.pin? (s.store.get n).reg = some offset → s'.offsets.get (s.store.get n).reg = offset := by
  have expired := expire_respects (k := k) (s := s) (s.store.get n).min
  unfold Sweep.visit at visited
  dsimp only at visited
  generalize s.expire (s.store.get n).min = t at expired visited
  split at visited
  · rename_i hole
    cases visited
    refine ⟨expired.trans (openHole_respects n), fun _ live => ?_⟩
    rw [hole] at live
    cases live
  · rw [← expired.reg n]
    unfold Sweep.place at visited
    dsimp only at visited
    split at visited
    · rename_i pin pinned
      obtain ⟨respects, here⟩ := placePinned_respects pinned visited
      refine ⟨expired.trans respects, fun offset _ known => ?_⟩
      rw [pinned] at known
      cases known
      exact here
    · rename_i free
      refine ⟨expired.trans ?_, fun offset _ known => by rw [free] at known; cases known⟩
      split at visited
      · cases visited
      · split at visited
        · rename_i u taken
          cases visited
          exact tryHole_respects free taken
        · exact placeOrSpill_respects _ free visited

/-! ## Whole sweeps -/

theorem visits_respect (rest : List Nat)
    (visited : rest.foldlM (Sweep.visit k lv cfg) s = .ok s') :
    Respects k s s' ∧ ∀ n ∈ rest, ∀ offset, (s.store.get n).hole = false →
      k.pin? (s.store.get n).reg = some offset → s'.offsets.get (s.store.get n).reg = offset := by
  induction rest generalizing s with
  | nil =>
    rw [List.foldlM_nil, pure_ok] at visited
    subst visited
    exact ⟨.refl k s, by simp⟩
  | cons m rest ih =>
    rw [List.foldlM_cons, bind_ok] at visited
    obtain ⟨t, first, others⟩ := visited
    obtain ⟨respects, placed⟩ := visit_respects first
    obtain ⟨later, placedLater⟩ := ih others
    refine ⟨respects.trans later, ?_⟩
    intro n member offset live pinned
    rcases List.mem_cons.mp member with rfl | after
    · rcases later.places _ offset pinned with kept | moved
      · rw [kept]
        exact placed offset live pinned
      · exact moved
    · rw [← respects.reg n]
      exact placedLater n after offset (by rw [respects.hole n]; exact live)
        (by rw [respects.reg n]; exact pinned)

/-- A sweep leaves every pinned register at its pin and reports no loan to one. -/
theorem run_pinned {reserve scratchBase : UInt32}
    (ran : Sweep.run k (Liveness.ofKernel k) cfg reserve scratchBase = .ok s) :
    (∀ n offset, Live k n → k.pin? (span k n).reg = some offset → place k s n = offset) ∧
      ∀ r host, Reuses s r host → k.pin? r = none := by
  unfold Sweep.run at ran
  split at ran
  · cases ran
  · dsimp only at ran
    obtain ⟨respects, placed⟩ := visits_respect _ ran
    refine ⟨?_, ?_⟩
    · intro n offset live pinned
      have same := freshStore_get k n
      have all := (freshStore_ordered k Interval.min fun n => (freshStore_get k n).min).2.1 n
      rw [← same.reg] at pinned
      have here := placed n (all.mpr live.held) offset (same.hole.trans live.live) pinned
      rw [place, ← same.reg]
      exact here
    · rintro r host ⟨iv, hole, event, rfl⟩
      rcases respects.told iv host hole event with before | free
      · cases before
      · exact free

end

/-! ## Allocations -/

/-- The bytes at the top of the register file that an allocation may keep for spill code. -/
def Reserved (k : Kernel) (cfg : SweepConfig) (reserve : UInt32) : Prop :=
  reserve = 0 ∨ reserve = (Allocation.reserveFor cfg (Liveness.ofKernel k)).size

/-- An allocation ends with a sweep over the kernel it returns that spills nothing. -/
theorem ofKernel_sweep {k : Kernel} {cfg : SweepConfig} {r : Allocation × List AllocationEvent}
    (allocated : Allocation.ofKernel k cfg = .ok r) :
    ∃ reserve scratch s, Reserved k cfg reserve ∧
      Sweep.run r.1.kernel (Liveness.ofKernel r.1.kernel) cfg reserve scratch = .ok s ∧
      r.1.offsets = s.offsets ∧ s.spilled = [] := by
  obtain ⟨s, swept, ⟨unspilled, same⟩ | ⟨-, rounding⟩⟩ := Allocation.ofKernel_cases allocated
  · rw [same]
    exact ⟨0, 0, s, .inl rfl, swept, rfl, unspilled⟩
  · obtain ⟨scratch, s', ran, offsets, unspilled⟩ := rounding.sweep
    exact ⟨_, scratch, s', .inr rfl, ran, offsets, unspilled⟩

/-- The places of an allocation are those of one sweep over the kernel it returns. -/
theorem ofKernel_run {k : Kernel} {cfg : SweepConfig} {r : Allocation × List AllocationEvent}
    (allocated : Allocation.ofKernel k cfg = .ok r) :
    ∃ reserve scratch s, Reserved k cfg reserve ∧
      Sweep.run r.1.kernel (Liveness.ofKernel r.1.kernel) cfg reserve scratch = .ok s ∧
      r.1.offsets = s.offsets := by
  obtain ⟨reserve, scratch, s, reserved, ran, offsets, -⟩ := ofKernel_sweep allocated
  exact ⟨reserve, scratch, s, reserved, ran, offsets⟩

section
variable {k : Kernel} {cfg : SweepConfig} {reserve scratchBase : UInt32} {s : Sweep} {a b : Nat} {offset : UInt32}

theorem not_unmapped (sums : SumsFit k cfg reserve) (live : Live k a) (pinned : k.pin? (span k a).reg = some offset) :
    offset ≠ unmapped := by
  have room := sums.pin _ _ _ live.intervalOf pinned
  have positive : 0 < (span k a).slot.toNat := slotSize_pos (sums.slot _ _ live.intervalOf)
  rintro rfl
  change 4294967295 + (span k a).slot.toNat < 4294967296 at room
  omega

/-- A pinned register is nobody's guest, and it has no hole to lend. -/
theorem aside_of_pinned (ran : Sweep.run k (Liveness.ofKernel k) cfg reserve scratchBase = .ok s)
    (pinned : k.pin? (span k a).reg = some offset) (pair : Aside k s a b ∨ Hosted k s a b ∨ Hosted k s b a) :
    Aside k s a b := by
  rcases pair with aside | guest | host
  · exact aside
  · rw [(run_pinned ran).2 _ _ guest.told] at pinned
    cases pinned
  · obtain ⟨j, hollow, owner, -⟩ := host.inside
    rw [← owner, hollow.isHole.unpinned] at pinned
    cases pinned

/-- Two registers of which one is pinned share bytes only if they are not live together. -/
theorem not_overlap_pinned (sums : SumsFit k cfg reserve) (pins : PinsAside k cfg reserve)
    (ran : Sweep.run k (Liveness.ofKernel k) cfg reserve scratchBase = .ok s) (liveA : Live k a) (liveB : Live k b)
    (differs : a ≠ b) (mappedB : Mapped k s b)
    (pinned : k.pin? (span k a).reg = some offset) (shares : ¬ Aside k s a b) : ¬ Overlap k a b := by
  intro overlap
  obtain ⟨done, last, inv⟩ := run_uncrossed sums pins ran
  have mappedA : Mapped k s a := by
    rw [Mapped, (run_pinned ran).1 a offset liveA pinned]
    exact not_unmapped sums liveA pinned
  exact shares (aside_of_pinned ran pinned (inv.pair liveA liveB differs mappedA mappedB overlap))

end

/-- An allocation puts a pinned register at its pin. A register without a pin whose place shares a byte
with it starts before one of its accesses exactly when it ended before the pinned register's interval
began. -/
theorem pinned_apart_from_start (k : Kernel) (cfg : SweepConfig) (a : Allocation)
    (log : List AllocationEvent) (allocated : Allocation.ofKernel k cfg = .ok (a, log))
    (sums : ∀ reserve, Reserved k cfg reserve → SumsFit a.kernel cfg reserve)
    (pins : ∀ reserve, Reserved k cfg reserve → PinsAside a.kernel cfg reserve)
    (r : VReg) (offset : UInt32) (iv : Interval) (pinned : a.kernel.pin? r = some offset)
    (found : (Liveness.ofKernel a.kernel).intervalOf? r = some iv) :
    a.offsets.get r = offset ∧
      ∀ r' iv', a.kernel.pin? r' = none → (Liveness.ofKernel a.kernel).intervalOf? r' = some iv' →
        ¬ Apart offset iv.slot (a.offsets.get r') iv'.slot →
        ∀ x ∈ accesses a.kernel, x.operand.reg = r → (iv'.min < x.position ↔ iv'.max < iv.min) := by
  obtain ⟨reserve, scratch, s, reserved, ran, offsets⟩ := ofKernel_run allocated
  have sums := sums reserve reserved
  rw [offsets]
  obtain ⟨m, liveM, rfl, rfl⟩ := live_of_intervalOf found
  have placed := (run_pinned ran).1 m offset liveM pinned
  refine ⟨placed, ?_⟩
  intro r' iv' free found' shares x member named
  obtain ⟨n, liveN, rfl, rfl⟩ := live_of_intervalOf found'
  have differs : m ≠ n := by
    rintro rfl
    rw [free] at pinned
    cases pinned
  have mapped : Mapped a.kernel s n := by
    intro missing
    apply shares
    rw [show s.offsets.get (span a.kernel n).reg = unmapped from missing]
    left
    have room := sums.pin _ _ _ found pinned
    change _ ≤ 4294967295
    omega
  have apart := not_overlap_pinned sums (pins reserve reserved) ran liveM liveN differs mapped pinned
    (by unfold Aside; rw [placed]; exact shares)
  have covers := (LivePaths.intervalOf_spec found).1
  have within := covers.within x member named
  have valid := liveN.valid
  unfold Overlap at apart
  omega

/-- A kernel whose payload register is pinned where the first free range lies, and read late. -/
def latePayload : Kernel where
  name := "payload"
  simdWidth := 8
  pinned := ⟨[(0, 32)]⟩
  next := 3
  code :=
    [{ op := .mov, dst := .vector ⟨1⟩ .ud, src := [.immediate .ud 1 false false] },
      { op := .mov, dst := .vector ⟨2⟩ .ud, src := [.vector ⟨1⟩ .ud] },
      { op := .add, dst := .vector ⟨2⟩ .ud, src := [.vector ⟨0⟩ .ud, .vector ⟨2⟩ .ud] },
      { op := .endThread }]

/-- A register file of 128 general registers, the first of which is never handed out. -/
def wholeFile : SweepConfig := ⟨4096, 32, true, .longest, 0⟩

theorem latePayload_allocated : ∃ a log, Allocation.ofKernel latePayload wholeFile = .ok (a, log) ∧
    a.kernel = latePayload ∧ a.offsets.get ⟨1⟩ = 32 := by
  have outcome : (Allocation.ofKernel latePayload wholeFile).toOption.map
      (fun r => (r.1.spills, r.1.offsets.get ⟨1⟩)) = some (0, 32) := by
    simp only [Allocation.ofKernel, Allocation.sweep, Sweep.run, Sweep.start, Liveness.ofKernel,
      sorted_insertion]
    decide +kernel
  obtain ⟨⟨a, log⟩, allocated, same⟩ := toOption_map_some.mp outcome
  obtain ⟨unspilled, place⟩ := Prod.mk.inj same
  obtain ⟨-, -, -, -, kernel, -⟩ := StraightLine.ofKernel_unspilled allocated unspilled
  exact ⟨a, log, allocated, kernel, place⟩

theorem latePayload_intervals :
    (Liveness.ofKernel latePayload).intervalOf? ⟨0⟩ =
        some { reg := ⟨0⟩, min := 2, max := 2, accesses := 1, block := 0, size := 32 } ∧
      (Liveness.ofKernel latePayload).intervalOf? ⟨1⟩ =
        some { reg := ⟨1⟩, min := 0, max := 1, accesses := 2, block := 0, size := 32 } := by
  decide +kernel

/-- The payload is in registers before the first instruction, but its place is handed out until it is
read. -/
theorem payload_overwritten :
    ¬ ∀ (k : Kernel) (cfg : SweepConfig) (a : Allocation) (log : List AllocationEvent) (r r' : VReg)
      (offset : UInt32) (iv iv' : Interval) (first : Access),
      Allocation.ofKernel k cfg = .ok (a, log) → k.pin? r = some offset →
      first ∈ accesses k → first.operand.reg = r → first.instruction.reads r = true →
      (∀ x ∈ accesses k, x.operand.reg = r → first.position ≤ x.position) →
      (Liveness.ofKernel a.kernel).intervalOf? r = some iv →
      offset.toNat + iv.slot.toNat ≤ cfg.fileSize.toNat →
      a.kernel.pin? r' = none → (Liveness.ofKernel a.kernel).intervalOf? r' = some iv' →
      ¬ Apart offset iv.slot (a.offsets.get r') iv'.slot →
      ∀ x ∈ accesses a.kernel, x.operand.reg = r → ¬ iv'.min < x.position := by
  intro survives
  obtain ⟨a, log, allocated, kernel, place⟩ := latePayload_allocated
  obtain ⟨found, found'⟩ := latePayload_intervals
  have read : (⟨2, _, _⟩ : Access) ∈ accesses latePayload :=
    mem_accesses.mpr ⟨rfl, List.mem_cons_of_mem _ List.mem_cons_self⟩
  have only : ∀ x ∈ accesses latePayload, x.operand.reg = ⟨0⟩ → 2 ≤ x.position := by
    decide
  rw [← kernel] at found found'
  refine survives latePayload wholeFile a log ⟨0⟩ ⟨1⟩ 32 _ _ _ allocated rfl read rfl rfl only found ?_
    (by rw [kernel]; rfl) found' ?_ _ (by rw [kernel]; exact read) rfl ?_
  · decide
  · rw [place]
    unfold Apart
    decide
  · decide

/-- In the same kernel the register in the payload's place ended before the payload is read. -/
theorem pinned_apart_from_start_payload :
    ∃ a log, Allocation.ofKernel latePayload wholeFile = .ok (a, log) ∧ a.offsets.get ⟨0⟩ = 32 ∧
      ∀ r' iv', a.kernel.pin? r' = none → (Liveness.ofKernel a.kernel).intervalOf? r' = some iv' →
        ¬ Apart 32 32 (a.offsets.get r') iv'.slot →
        ∀ x ∈ accesses a.kernel, x.operand.reg = ⟨0⟩ → (iv'.min < x.position ↔ iv'.max < 2) := by
  obtain ⟨a, log, allocated, kernel, -⟩ := latePayload_allocated
  obtain ⟨found, -⟩ := latePayload_intervals
  have sizes : ∀ iv ∈ (Liveness.ofKernel latePayload).store.intervals,
      iv.size.toNat ≤ 32 ∧ iv.slot.toNat ≤ 32 := by
    decide +kernel
  have size : (Allocation.reserveFor wholeFile (Liveness.ofKernel latePayload)).size = 128 := by
    decide +kernel
  have window {reserve : UInt32} (reserved : Reserved latePayload wholeFile reserve) :
      (wholeFile.fileSize - reserve).toNat ≤ 4096 ∧ 3968 ≤ (wholeFile.fileSize - reserve).toNat := by
    rcases reserved with rfl | rfl
    · decide
    · rw [size]
      decide
  have pin {r : VReg} {offset : UInt32} (pinned : latePayload.pin? r = some offset) : offset = 32 := by
    unfold Kernel.pin? latePayload OrdMap.find? at pinned
    simp only [List.find?_cons, List.find?_nil] at pinned
    split at pinned
    · exact (Option.some.inj pinned).symm
    · cases pinned
  rw [← kernel] at found
  refine ⟨a, log, allocated, pinned_apart_from_start latePayload wholeFile a log allocated ?_ ?_ ⟨0⟩ 32 _
    (by rw [kernel]; rfl) found⟩
  · intro reserve reserved
    have bounds := window reserved
    rw [kernel]
    refine sumsFit_of_all fun iv member => ?_
    have small := sizes iv member
    refine ⟨by omega, by omega, fun entry listed => ?_⟩
    obtain rfl := List.mem_singleton.mp listed
    change 32 + _ < _
    omega
  · intro reserve reserved r iv offset known pinned
    rw [kernel] at known pinned
    have bounds := window reserved
    have small := sizes iv (mem_of_intervalOf known)
    rw [pin pinned]
    left
    change 32 ≤ 32 ∧ 32 + _ ≤ _
    omega

end GpuCodegen.Placement
