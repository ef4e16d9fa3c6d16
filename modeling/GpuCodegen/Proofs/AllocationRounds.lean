import GpuCodegen.Proofs.Outcome
import GpuCodegen.Registers.Allocation

/-! The sweeps behind an allocation. What allocation tells on the way and how many rounds it may take do not
matter to what it ends with: an allocation that succeeds is that of its first sweep, or that of the last one of
several, with spill code between them. -/

namespace GpuCodegen.Allocation
open Outcome

/-- The rounds of an allocation with a reserve, from a kernel with so much scratch memory and so many spills to what
they end with. -/
inductive Rounding (cfg : SweepConfig) (reserve : Reserve) : Kernel → UInt32 → Nat → Allocation → Prop where
  | last {k : Kernel} {scratch : UInt32} {spills : Nat} {s : Sweep}
      (swept : Sweep.run k (Liveness.ofKernel k) cfg reserve.size scratch = .ok s) (unspilled : s.spilled = []) :
      Rounding cfg reserve k scratch spills
        { kernel := k, offsets := s.offsets, scratchSize := scratch, spills := spills, holeReuses := s.holeReuses,
          header := reserve.header }
  | again {k k' : Kernel} {scratch : UInt32} {spills : Nat} {s : Sweep} {a : Allocation}
      (swept : Sweep.run k (Liveness.ofKernel k) cfg reserve.size scratch = .ok s) (spilled : s.spilled ≠ [])
      (inserted : k.insertSpillCode ⟨Liveness.ofKernel k, s.scratch, s.spilled, reserve⟩ = .ok k')
      (rest : Rounding cfg reserve k' s.scratchSize (spills + s.spilled.length) a) :
      Rounding cfg reserve k scratch spills a

section
variable {k : Kernel} {cfg : SweepConfig} {reserve : Reserve} {scratch : UInt32} {spills : Nat}
  {log : List AllocationEvent} {r : Allocation × List AllocationEvent}

theorem sweep_ok {lv : Liveness} {reserve : UInt32} {r : Sweep × List AllocationEvent}
    (swept : sweep k lv cfg reserve scratch log = .ok r) : Sweep.run k lv cfg reserve scratch = .ok r.1 := by
  unfold sweep at swept
  split at swept
  · rename_i ran
    cases swept
    exact ran
  · cases swept

theorem rounds_rounding (n : Nat) {last : VReg}
    (ran : rounds cfg reserve n k (Liveness.ofKernel k) scratch spills last log = .ok r) :
    Rounding cfg reserve k scratch spills r.1 := by
  induction n generalizing k scratch spills last log with
  | zero => cases ran
  | succ n ih =>
    rw [rounds, bind_ok] at ran
    obtain ⟨⟨s, log'⟩, swept, rest⟩ := ran
    cases spilled : s.spilled with
    | nil =>
      simp only [spilled, pure_ok] at rest
      subst rest
      exact .last (sweep_ok swept) spilled
    | cons first others =>
      simp only [spilled] at rest
      split at rest
      · cases rest
      · rename_i inserted
        rw [← spilled] at inserted rest
        exact .again (sweep_ok swept) (by simp [spilled]) inserted (ih rest)

/-- What an allocation does: one sweep of the whole register file, and rounds with a reserve if that spills. -/
theorem ofKernel_cases (allocated : ofKernel k cfg = .ok r) :
    ∃ s, Sweep.run k (Liveness.ofKernel k) cfg 0 0 = .ok s ∧
      (s.spilled = [] ∧ r.1 = { kernel := k, offsets := s.offsets, holeReuses := s.holeReuses } ∨
        s.spilled ≠ [] ∧ Rounding cfg (reserveFor cfg (Liveness.ofKernel k)) k 0 0 r.1) := by
  simp only [ofKernel, bind_ok] at allocated
  obtain ⟨⟨s, log⟩, swept, rest⟩ := allocated
  refine ⟨s, sweep_ok swept, ?_⟩
  cases spilled : s.spilled with
  | nil =>
    simp only [spilled, pure_ok] at rest
    exact .inl ⟨rfl, by rw [← rest]⟩
  | cons first others =>
    simp only [spilled] at rest
    exact .inr ⟨by simp, rounds_rounding _ rest⟩

end

section
variable {k : Kernel} {cfg : SweepConfig} {reserve : Reserve} {scratch : UInt32} {spills : Nat} {a : Allocation}

/-- Spills only add up. -/
theorem Rounding.spills_le (rounding : Rounding cfg reserve k scratch spills a) : spills ≤ a.spills := by
  induction rounding with
  | last => exact Nat.le_refl _
  | again _ _ _ _ ih => exact Nat.le_trans (Nat.le_add_right _ _) ih

theorem Rounding.header (rounding : Rounding cfg reserve k scratch spills a) : a.header = reserve.header := by
  induction rounding with
  | last => rfl
  | again _ _ _ _ ih => exact ih

/-- The places are those of a sweep over the rewritten kernel that spills nothing. -/
theorem Rounding.sweep (rounding : Rounding cfg reserve k scratch spills a) :
    ∃ scratch' s, Sweep.run a.kernel (Liveness.ofKernel a.kernel) cfg reserve.size scratch' = .ok s ∧
      a.offsets = s.offsets ∧ s.spilled = [] := by
  induction rounding with
  | last swept unspilled => exact ⟨_, _, swept, rfl, unspilled⟩
  | again _ _ _ _ ih => exact ih

end

end GpuCodegen.Allocation
