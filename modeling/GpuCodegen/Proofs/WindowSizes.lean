import GpuCodegen.Proofs.LiveRegisters
import GpuCodegen.Proofs.SpillLoop

/-! Registers longer than the window. A sweep never moves the ends of its window, and it stops at a register without a
pin that does not fit between them. So a sweep that ends has met no such register. -/

namespace GpuCodegen.Placement
open LiveIntervals Outcome

/-- Where the window of a sweep starts and ends. -/
def bounds (s : Sweep) : UInt32 × UInt32 := (s.pool.base, s.pool.limit)

section
variable {k : Kernel} {lv : Liveness} {cfg : SweepConfig} {s s' : Sweep} {n : Nat}

theorem deactivate_bounds (s : Sweep) (n : Nat) : bounds (s.deactivate n) = bounds s := by
  unfold Sweep.deactivate
  dsimp only
  split
  · rfl
  · split <;> rfl

theorem expireOne_bounds (s : Sweep) (n : Nat) : bounds (s.expireOne n) = bounds s := by
  unfold Sweep.expireOne
  split
  · rfl
  · split
    · exact deactivate_bounds s n
    · rfl

theorem expire_bounds (s : Sweep) (start : Int) : bounds (s.expire start) = bounds s := by
  have along (ns : List Nat) (s : Sweep) : bounds (ns.foldl Sweep.expireOne s) = bounds s := by
    induction ns generalizing s with
    | nil => rfl
    | cons n ns ih => exact (ih (s.expireOne n)).trans (expireOne_bounds s n)
  exact along _ s

theorem spill_bounds (spilled : s.spill lv cfg n = .ok s') : bounds s' = bounds s := by
  have unplaced : bounds (s.unplace n) = bounds s := by
    unfold Sweep.unplace
    split
    · exact deactivate_bounds s n
    · rfl
  rw [← unplaced, bounds, (spill_cases spilled).pool, bounds]

theorem settles_bounds {avoid : Option Nat} {r : Except (Stopped PlacementEvent) Sweep}
    (settles : Settles k lv cfg n avoid s r) (ran : r = .ok s') : bounds s' = bounds s := by
  induction settles with
  | placed found =>
    cases ran
    obtain ⟨start, -, same⟩ := Option.map_eq_some_iff.mp found
    cases same
    rfl
  | refused => cases ran
  | itself => exact spill_bounds ran
  | failed => cases ran
  | again full spills victim spilled rest ih => exact (ih ran).trans (spill_bounds spilled)

theorem visit_bounds (visited : Sweep.visit k lv cfg s n = .ok s') : bounds s' = bounds s := by
  rw [← expire_bounds s (s.store.get n).min]
  rcases visit_cases visited with ⟨-, rfl⟩ | ⟨-, ⟨offset, -, pinned⟩ | ⟨-, taken | ⟨avoid, settles⟩⟩⟩
  · unfold Sweep.openHole
    dsimp only
    split
    · split <;> rfl
    · rfl
  · rcases (placePinned_puts pinned).2 with same | ⟨-, claimed⟩
    · rw [bounds, same, bounds]
    · unfold FreePool.claim at claimed
      split at claimed
      · cases claimed
      · split at claimed
        · cases claimed
        · rw [bounds, ← Option.some.inj claimed]
          rfl
  · obtain ⟨-, -, -, same, -⟩ := tryHole_puts taken
    rw [bounds, same, bounds]
  · exact settles_bounds settles rfl

/-- What is visited without an error and without a pin fits the window. -/
theorem visit_fits (visited : Sweep.visit k lv cfg s n = .ok s') (live : (s.store.get n).hole = false)
    (free : k.pin? (s.store.get n).reg = none) : (s.store.get n).slot ≤ (bounds s).2 - (bounds s).1 := by
  unfold Sweep.visit at visited
  dsimp only at visited
  rw [live, if_neg (by decide)] at visited
  have store := (expire_expires s (s.store.get n).min).store
  have bounded := expire_bounds s (s.store.get n).min
  unfold Sweep.place at visited
  dsimp only at visited
  rw [store, free] at visited
  dsimp only at visited
  rw [← bounded]
  split at visited
  · cases visited
  · rename_i fits
    exact UInt32.not_lt.mp fits

/-- The registers met by some visits, by induction on them. -/
theorem visits_fit (rest : List Nat) (roster : Roster k s) (held : ∀ m ∈ rest, m < (Liveness.ofKernel k).store.size)
    (visited : rest.foldlM (Sweep.visit k lv cfg) s = .ok s') (member : n ∈ rest) (live : Live k n)
    (free : k.pin? (span k n).reg = none) : (span k n).slot ≤ (bounds s).2 - (bounds s).1 := by
  induction rest generalizing s with
  | nil => cases member
  | cons m rest ih =>
    rw [List.foldlM_cons, bind_ok] at visited
    obtain ⟨t, first, others⟩ := visited
    rcases List.mem_cons.mp member with rfl | later
    · rw [← (roster.shape n).slot]
      exact visit_fits first ((roster.shape n).hole.trans live.2) (by rw [(roster.shape n).reg]; exact free)
    · rw [← visit_bounds first]
      exact ih (roster.visit (held m List.mem_cons_self) first)
        (fun m' inside => held m' (List.mem_cons_of_mem _ inside))
        others later

/-- A register without a pin fits the window of a sweep that ends. -/
theorem run_fits {reserve scratchBase : UInt32}
    (ran : Sweep.run k (Liveness.ofKernel k) cfg reserve scratchBase = .ok s) {r : VReg} {iv : Interval}
    (found : (Liveness.ofKernel k).intervalOf? r = some iv) (free : k.pin? r = none) :
    iv.slot ≤ cfg.fileSize - reserve - cfg.reservedLow := by
  obtain ⟨n, live, rfl, rfl⟩ := live_of_intervalOf found
  obtain ⟨order, -, all, visited⟩ := run_visits ran
  have fits := visits_fit order (start_roster k cfg reserve scratchBase) (fun m member => (all m).mp member) visited
    ((all n).mpr live.1) live free
  have window : bounds (Sweep.start (Liveness.ofKernel k) cfg reserve scratchBase) =
      (cfg.reservedLow, cfg.fileSize - reserve) := rfl
  rw [window] at fits
  exact fits

end

end GpuCodegen.Placement
