import GpuCodegen.Proofs.AllocationRounds
import GpuCodegen.Proofs.LiveRegisters
import GpuCodegen.Proofs.StraightLine

/-! Allocation of straight-line kernels. Without spills the places come from one sweep over the
selected kernel, all of whose registers take the same few bytes, so that no sum of the sweep wraps. -/

namespace GpuCodegen.StraightLine
open Lanes LiveIntervals Outcome Placement

/-! ## The sweep behind an allocation -/

/-- The allocation of a kernel without spills is that of one sweep. -/
theorem ofKernel_unspilled {k : Kernel} {cfg : SweepConfig} {r : Allocation × List AllocationEvent}
    (allocated : Allocation.ofKernel k cfg = .ok r) (unspilled : r.1.spills = 0) :
    ∃ reserve s, (reserve = 0 ∨ reserve = (Allocation.reserveFor cfg (Liveness.ofKernel k)).size) ∧
      Sweep.run k (Liveness.ofKernel k) cfg reserve 0 = .ok s ∧ r.1.kernel = k ∧
      r.1.offsets = s.offsets := by
  obtain ⟨a, log⟩ := r
  obtain ⟨s, swept, ⟨-, same⟩ | ⟨-, rounding⟩⟩ := Allocation.ofKernel_cases allocated
  · dsimp only at same
    subst same
    exact ⟨0, s, .inl rfl, swept, rfl, rfl⟩
  · dsimp only at rounding unspilled
    cases rounding with
    | last swept' => exact ⟨_, _, .inr rfl, swept', rfl, rfl⟩
    | again _ spilled _ rest =>
      have more := rest.spills_le
      have some := List.length_pos_iff.mpr spilled
      omega

/-! ## Sizes -/

/-- A step of the walk keeps the larger number of register operands. -/
theorem step_maxOperands (k : Kernel) (w : Walk) (e : Instruction × Nat) :
    (Walk.step k w e).maxOperands = max w.maxOperands e.1.registers.length := by
  have access (os : List RegisterOperand) (w : Walk) (position : Nat) (i : Instruction) :
      (os.foldl (fun w o => w.access position i (k.widthOf i) o) w).maxOperands = w.maxOperands := by
    induction os generalizing w with
    | nil => rfl
    | cons o rest ih =>
      rw [List.foldl_cons, ih]
      unfold Walk.access
      split <;> rfl
  have avoid (w : Walk) (r other : VReg) : (w.avoid r other).maxOperands = w.maxOperands := by
    unfold Walk.avoid
    split <;> rfl
  have separate (w : Walk) (i : Instruction) : (w.separate i).maxOperands = w.maxOperands := by
    unfold Walk.separate
    split
    · split
      · rfl
      · rw [avoid, avoid]
    · rfl
  change max (Walk.separate _ _).maxOperands e.1.registers.length = _
  rw [separate, access]

theorem walk_maxOperands {k : Kernel} {n : Nat} (few : ∀ i ∈ k.code, i.registers.length ≤ n) :
    (Liveness.ofKernel k).maxOperands ≤ n := by
  have along (entries : List (Instruction × Nat)) (w : Walk) (start : w.maxOperands ≤ n)
      (all : ∀ e ∈ entries, e.1.registers.length ≤ n) :
      (entries.foldl (Walk.step k) w).maxOperands ≤ n := by
    induction entries generalizing w with
    | nil => exact start
    | cons e rest ih =>
      rw [List.foldl_cons]
      refine ih _ ?_ fun e member => all e (List.mem_cons_of_mem _ member)
      rw [step_maxOperands]
      exact Nat.max_le.mpr ⟨start, all e List.mem_cons_self⟩
  exact along k.code.zipIdx {} (Nat.zero_le n) fun e member => few e.1 (List.fst_mem_of_mem_zipIdx member)

theorem registers_le_maxOperands {k : Kernel} {i : Instruction} (here : i ∈ k.code) :
    i.registers.length ≤ (Liveness.ofKernel k).maxOperands := by
  have along (entries : List (Instruction × Nat)) (w : Walk) :
      w.maxOperands ≤ (entries.foldl (Walk.step k) w).maxOperands ∧
        ∀ e ∈ entries, e.1.registers.length ≤ (entries.foldl (Walk.step k) w).maxOperands := by
    induction entries generalizing w with
    | nil => exact ⟨Nat.le_refl _, fun _ none => absurd none List.not_mem_nil⟩
    | cons e rest ih =>
      rw [List.foldl_cons]
      obtain ⟨grows, covers⟩ := ih (Walk.step k w e)
      have both := Nat.max_le.mp (Nat.le_of_eq (step_maxOperands k w e).symm)
      refine ⟨Nat.le_trans both.1 grows, fun e' member => ?_⟩
      rcases List.mem_cons.mp member with rfl | later
      · exact Nat.le_trans both.2 grows
      · exact covers e' later
  obtain ⟨p, at_⟩ := List.mem_iff_getElem?.mp here
  exact (along k.code.zipIdx {}).2 (i, p) (List.mk_mem_zipIdx_iff_getElem?.mpr at_)

theorem maxRegSize_le {k : Kernel} {most : UInt32}
    (small : ∀ a ∈ accesses k, slotSize (a.operand.storage (k.widthOf a.instruction)) ≤ most) :
    (Liveness.ofKernel k).maxRegSize ≤ most := by
  have slots : ∀ iv ∈ k.walk.store.intervals, iv.slot ≤ most := by
    intro iv member
    obtain ⟨n, held, rfl⟩ := List.getElem_of_mem member
    obtain ⟨r, u, found, rfl⟩ := (walk_walked k).tracks.covered n held
    obtain ⟨a, access, -, size⟩ := ((walk_walked k).tracks.used r u found).attained
    have at_ : k.walk.store.get u.index = k.walk.store.intervals.get ⟨u.index, held⟩ := by
      simp [IntervalStore.get, held]
    rw [at_] at size
    rw [Interval.slot, show k.walk.store.intervals[u.index].size = _ from size]
    exact small a access
  have along (ivs : List Interval) (n : UInt32) (start : n ≤ most) (all : ∀ iv ∈ ivs, iv.slot ≤ most) :
      ivs.foldl (fun n iv => if n < iv.slot then iv.slot else n) n ≤ most := by
    induction ivs generalizing n with
    | nil => exact start
    | cons iv rest ih =>
      rw [List.foldl_cons]
      apply ih
      · split
        · exact all iv List.mem_cons_self
        · exact start
      · exact fun iv member => all iv (List.mem_cons_of_mem _ member)
  exact along k.walk.store.intervals 0 UInt32.zero_le slots

theorem slot_le_maxRegSize {k : Kernel} {r : VReg} {iv : Interval}
    (found : (Liveness.ofKernel k).intervalOf? r = some iv) : iv.slot ≤ (Liveness.ofKernel k).maxRegSize := by
  have along (ivs : List Interval) (n : UInt32) :
      n ≤ ivs.foldl (fun n iv => if n < iv.slot then iv.slot else n) n ∧
        ∀ iv ∈ ivs, iv.slot ≤ ivs.foldl (fun n iv => if n < iv.slot then iv.slot else n) n := by
    induction ivs generalizing n with
    | nil => exact ⟨UInt32.le_refl _, fun _ none => absurd none List.not_mem_nil⟩
    | cons iv rest ih =>
      rw [List.foldl_cons]
      obtain ⟨grows, covers⟩ := ih (if n < iv.slot then iv.slot else n)
      have both : n ≤ (if n < iv.slot then iv.slot else n) ∧ iv.slot ≤ (if n < iv.slot then iv.slot else n) := by
        split
        · rename_i less
          exact ⟨UInt32.le_of_lt less, UInt32.le_refl _⟩
        · rename_i most
          exact ⟨UInt32.le_refl _, UInt32.not_lt.mp most⟩
      refine ⟨UInt32.le_trans both.1 grows, fun iv' member => ?_⟩
      rcases List.mem_cons.mp member with rfl | later
      · exact UInt32.le_trans both.2 grows
      · exact covers iv' later
  -- Settling and widening the interval of the walk change its range, not its size.
  rw [intervalOf_ofKernel] at found
  obtain ⟨u, known, rfl⟩ := Option.map_eq_some_iff.mp found
  have widened := (widened_settle k u (k.walk.store.get u.index)).trans (widened_widen k k.loops _)
  change slotSize (Liveness.widen k k.loops _).size ≤ _
  rw [widened.size]
  have held : u.index < k.walk.store.intervals.length := ((walk_walked k).tracks.used r u known).index
  refine (along k.walk.store.intervals 0).2 _ ?_
  rw [IntervalStore.get, List.getD_eq_getElem?_getD, List.getElem?_eq_getElem held]
  exact List.getElem_mem held

/-- Every register operand of a kernel is a vector of dwords on all of `width` lanes. -/
def Uniform (k : Kernel) (width : Int) : Prop :=
  ∀ a ∈ accesses k, IsVector a.operand ∧ k.widthOf a.instruction = width

theorem storage_vector {o : RegisterOperand} {width : Int} (vector : IsVector o)
    (wide : width = 8 ∨ width = 16) :
    (o.storage width).toNat = 4 * width.toNat ∧ slotSize (o.storage width) = o.storage width := by
  have size : o.type.size = 4 := by
    rcases vector.type with same | same <;> rw [same] <;> rfl
  have spans : o.spans = 1 := by
    have span := vector.span
    unfold RegisterOperand.spans
    split <;> omega
  rcases wide with rfl | rfl <;>
    simp only [RegisterOperand.storage, RegisterOperand.bytes, RegisterOperand.lanes, size, spans,
      vector.vector, Bool.false_eq_true, if_false] <;> decide

theorem Uniform.slot {k : Kernel} {width : Int} (uniform : Uniform k width) (wide : width = 8 ∨ width = 16)
    {n : Nat} (live : Live k n) :
    (span k n).size.toNat = 4 * width.toNat ∧ (span k n).slot.toNat = 4 * width.toNat := by
  have found := live.intervalOf
  obtain ⟨m, index, same⟩ := Option.map_eq_some_iff.mp found
  have covers := (indexOf_covers index).2
  rw [show (Liveness.ofKernel k).store.get m = span k n from same] at covers
  obtain ⟨a, access, -, size⟩ := covers.attained
  obtain ⟨vector, lanes⟩ := uniform a access
  rw [lanes] at size
  obtain ⟨bytes, whole⟩ := storage_vector vector wide
  rw [Interval.slot, size, whole]
  exact ⟨bytes, bytes⟩

theorem reserve_small {k : Kernel} {width : Int} {cfg : SweepConfig} (uniform : Uniform k width)
    (wide : width = 8 ∨ width = 16) (few : ∀ i ∈ k.code, i.registers.length ≤ 3) :
    (Allocation.reserveFor cfg (Liveness.ofKernel k)).size.toNat < 256 := by
  have operands := walk_maxOperands few
  have size : (Liveness.ofKernel k).maxRegSize ≤ 64 := by
    apply maxRegSize_le
    intro a access
    obtain ⟨vector, lanes⟩ := uniform a access
    obtain ⟨bytes, whole⟩ := storage_vector vector wide
    rw [lanes, whole, UInt32.le_iff_toNat_le, bytes]
    rcases wide with rfl | rfl <;> decide
  rw [UInt32.le_iff_toNat_le] at size
  change (Liveness.ofKernel k).maxRegSize.toNat ≤ 64 at size
  have product : (Liveness.ofKernel k).maxOperands * (Liveness.ofKernel k).maxRegSize.toNat ≤ 3 * 64 :=
    Nat.mul_le_mul operands size
  have total : (32 + UInt32.ofNat (Liveness.ofKernel k).maxOperands * (Liveness.ofKernel k).maxRegSize).toNat =
      32 + (Liveness.ofKernel k).maxOperands * (Liveness.ofKernel k).maxRegSize.toNat := by
    have small : (Liveness.ofKernel k).maxOperands % 4294967296 = (Liveness.ofKernel k).maxOperands := by
      omega
    simp only [UInt32.toNat_add, UInt32.toNat_mul, UInt32.toNat_ofNat', Nat.reducePow, small]
    change (32 + _ % 4294967296) % 4294967296 = _
    omega
  have aligned := (FreePool.alignUp_bounds (show 0 < (32 : UInt32).toNat by decide)
    (show _ + (32 : UInt32).toNat < 4294967296 by
      rw [total]
      change _ + 32 < _
      omega)).2.1
  unfold Allocation.reserveFor
  change (alignUp _ 32).toNat < 256
  refine Nat.lt_of_lt_of_le aligned ?_
  rw [total]
  change _ + 32 ≤ 256
  omega

/-- No sum of the sweep behind an allocation wraps. -/
theorem Uniform.sumsFit {k : Kernel} {width : Int} {cfg : SweepConfig} {reserve : UInt32}
    (uniform : Uniform k width) (wide : width = 8 ∨ width = 16)
    (few : ∀ i ∈ k.code, i.registers.length ≤ 3) (unpinned : ∀ r, k.pin? r = none)
    (file : cfg.fileSize = 4096)
    (reserved : reserve = 0 ∨ reserve = (Allocation.reserveFor cfg (Liveness.ofKernel k)).size) :
    SumsFit k cfg reserve := by
  have low : reserve.toNat < 256 := by
    rcases reserved with rfl | rfl
    · decide
    · exact reserve_small uniform wide few
  have window : (cfg.fileSize - reserve).toNat ≤ 4096 := by
    rw [file, UInt32.toNat_sub_of_le _ _ (by rw [UInt32.le_iff_toNat_le]; change _ ≤ 4096; omega)]
    exact Nat.sub_le _ _
  have small {r : VReg} {iv : Interval} (found : (Liveness.ofKernel k).intervalOf? r = some iv) :
      iv.size.toNat ≤ 64 ∧ iv.slot.toNat ≤ 64 := by
    obtain ⟨n, live, rfl, -⟩ := live_of_intervalOf found
    obtain ⟨size, slot⟩ := uniform.slot wide live
    have lanes : width.toNat ≤ 16 := by
      rcases wide with rfl | rfl <;> decide
    omega
  refine sumsFit_of_unpinned unpinned fun r iv found => ?_
  obtain ⟨size, slot⟩ := small found
  omega

end GpuCodegen.StraightLine
