import GpuCodegen.Proofs.LaneArithmetic
import GpuCodegen.Proofs.WordRoundTrip

/-! What a word of dword arithmetic reads from the register file and what it writes there: one dword
per lane, one after the other from the place of an operand on. -/

namespace GpuCodegen.Memory

/-- The bits of a value are those of its bytes. -/
theorem testBit_load (m : Memory) (address : Nat) {size : Nat} (short : size ≤ 8) (i : Nat) :
    (m.load address size).toNat.testBit i =
      (decide (i < 8 * size) && (m (address + i / 8)).toNat.testBit (i % 8)) := by
  induction size generalizing address i with
  | zero => simp [load]
  | succ size ih =>
    have rest := ih (address + 1) (by omega)
    have eight : (8 : UInt64).toNat % 64 = 8 := rfl
    simp only [load, UInt64.toNat_or, UInt64.toNat_shiftLeft, eight, UInt8.toNat_toUInt64,
      Nat.testBit_or, Nat.testBit_mod_two_pow, Nat.testBit_shiftLeft, rest]
    by_cases first : i < 8
    · have here : i / 8 = 0 := by omega
      have same : i % 8 = i := by omega
      have inside : i < 8 * (size + 1) := by omega
      have above : ¬ 8 ≤ i := by omega
      simp [here, same, inside, above]
    · have high : (m address).toNat.testBit i = false := by
        apply Nat.testBit_lt_two_pow
        exact Nat.lt_of_lt_of_le (m address).toNat_lt (Nat.pow_le_pow_right (by decide) (by omega))
      have next : address + 1 + (i - 8) / 8 = address + i / 8 := by omega
      have same : (i - 8) % 8 = i % 8 := by omega
      have above : 8 ≤ i := by omega
      by_cases inside : i < 8 * (size + 1)
      · have fits : i < 64 := by omega
        have before : i - 8 < 8 * size := by omega
        simp [high, next, same, inside, fits, before, above]
      · have after : ¬ i - 8 < 8 * size := by omega
        simp [high, inside, after]

/-- What was stored is there, in the bits that were kept. -/
theorem testBit_load_store (m : Memory) (address : Nat) {size : Nat} (short : size ≤ 8) (v : UInt64) (i : Nat) :
    ((m.store address size v).load address size).toNat.testBit i =
      (decide (i < 8 * size) && v.toNat.testBit i) := by
  rw [testBit_load _ _ short]
  by_cases inside : i < 8 * size
  · have here : address ≤ address + i / 8 ∧ address + i / 8 < address + size := by omega
    have shift : 8 * (address + i / 8 - address) % 2 ^ 64 % 64 = 8 * (i / 8) := by omega
    have bit : 8 * (i / 8) + i % 8 = i := by omega
    have small : i % 8 < 8 := by omega
    simp only [store, if_pos here, UInt64.toNat_toUInt8, UInt64.toNat_shiftRight, UInt64.toNat_ofNat',
      Nat.testBit_mod_two_pow, Nat.testBit_shiftRight, shift, bit, inside, small, decide_true, Bool.true_and]
  · simp [inside]

theorem toNat_load_store (m : Memory) (address : Nat) {size : Nat} (short : size ≤ 8) (v : UInt64) :
    ((m.store address size v).load address size).toNat = v.toNat % 2 ^ (8 * size) := by
  apply Nat.eq_of_testBit_eq
  intro i
  rw [testBit_load_store _ _ short, Nat.testBit_mod_two_pow]

theorem toNat_load_lt (m : Memory) (address : Nat) {size : Nat} (short : size ≤ 8) :
    (m.load address size).toNat < 2 ^ (8 * size) := by
  apply Nat.lt_pow_two_of_testBit
  intro i high
  rw [testBit_load _ _ short, decide_eq_false (by omega), Bool.false_and]

theorem load_dword_lt (m : Memory) (address : Nat) : (m.load address 4).toNat < 2 ^ 32 :=
  m.toNat_load_lt address (by decide)

/-- A dword that was loaded has no higher half. -/
theorem toUInt32_load (m : Memory) (address : Nat) : (m.load address 4).toUInt32.toUInt64 = m.load address 4 := by
  rw [← UInt64.toNat_inj, UInt32.toNat_toUInt64, UInt64.toNat_toUInt32]
  exact Nat.mod_eq_of_lt (m.load_dword_lt address)

/-- A dword that was stored is there. -/
theorem load_store_dword (m : Memory) (address : Nat) (value : UInt64) :
    (m.store address 4 value).load address 4 = value.toUInt32.toUInt64 := by
  rw [← UInt64.toNat_inj, toNat_load_store _ _ (by decide), UInt32.toNat_toUInt64, UInt64.toNat_toUInt32]

/-- A qword that was stored is there. -/
theorem load_store_qword (m : Memory) (address : Nat) (value : UInt64) :
    (m.store address 8 value).load address 8 = value := by
  rw [← UInt64.toNat_inj, toNat_load_store _ _ (by decide)]
  exact Nat.mod_eq_of_lt value.toNat_lt

end GpuCodegen.Memory

namespace GpuCodegen.Lanes
open Native Generation WordRoundTrip

/-- Consecutive dwords from an offset on. -/
def vectorAt (offset : UInt32) (t : Element) : Register :=
  .vec (offset / grfSize) (offset % grfSize) t.dataType 8 8 1

theorem offset_split (offset : UInt32) : offset / grfSize * grfSize + offset % grfSize = offset := by
  rw [← UInt32.toNat_inj]
  have small := offset.toNat_lt
  have size : grfSize.toNat = 32 := rfl
  simp only [UInt32.toNat_add, UInt32.toNat_mul, UInt32.toNat_div, UInt32.toNat_mod, size]
  omega

theorem vectorAt_fits (f : Field) (offset : UInt32) (t : Element) : Fits f (vectorAt offset t) := by
  constructor <;> simp [vectorAt, Register.vec] <;> decide

/-- Lanes of a vector follow each other. -/
theorem element_rows (lane : Nat) : (Region.ofCounts 8 8 1).element lane = lane := by
  have rows : (strideElems (Region.ofCounts 8 8 1).vertical).toNat = 8 := by decide
  have columns : (strideElems (Region.ofCounts 8 8 1).horizontal).toNat = 1 := by decide
  have width : Nat.pow 2 (Region.ofCounts 8 8 1).width.toNat = 8 := by decide
  rw [Region.element, rows, columns, width]
  omega

theorem size_of_isDword {t : Element} (dwords : IsDword t) : t.dataType.size = 4 := by
  rcases dwords with rfl | rfl <;> rfl

theorem source_vector (m : Machine) (s : State) (offset : UInt32) {t : Element} (dwords : IsDword t)
    (lane : Nat) : m.source (readSource s (vectorAt offset t)) lane =
      t.dataType.extend (m.registers.load (offset.toNat + 4 * lane) 4) := by
  have region : sourceRegion s (vectorAt offset t) = Region.ofCounts 8 8 1 := by
    have wide : (Region.ofCounts 8 8 1).width ≠ 0 := by decide
    simp [sourceRegion, vectorAt, Register.vec, wide]
  have read : readSource s (vectorAt offset t) = vectorAt offset t := by
    unfold readSource
    rw [region]
    simp [vectorAt, Register.vec]
  have address : m.sourceAddress (vectorAt offset t) lane = offset.toNat + 4 * lane := by
    simp only [Machine.sourceAddress, vectorAt, Register.vec, Register.byteOffset, offset_split,
      element_rows, size_of_isDword dwords]
    omega
  rw [read]
  simp only [Machine.source, Machine.element, address]
  simp [vectorAt, Register.vec, size_of_isDword dwords]

theorem source_immediate (m : Machine) (s : State) {t : Element} (dwords : IsDword t) (bits : UInt32)
    (lane : Nat) :
    m.source (readSource s (.imm t.dataType bits.toUInt64)) lane = t.dataType.extend bits.toUInt64 := by
  rcases dwords with rfl | rfl <;>
    simp [readSource, Register.imm, Machine.source, Machine.element, Element.dataType, DataType.is64,
      DataType.size]

/-- Writing every lane of a vector puts one dword after the other, and leaves the bytes around. -/
theorem write_vector (m : Machine) (d : Decoded) (value : Nat → UInt64) (offset : UInt32) {t : Element}
    (dwords : IsDword t) (dst : d.dst = readDestination (vectorAt offset t)) :
    (∀ lane < d.execSize.toNat, (m.write d (fun _ => true) value).registers.load
        (offset.toNat + 4 * lane) 4 = (value lane).toUInt32.toUInt64) ∧
      ∀ a, a < offset.toNat ∨ offset.toNat + 4 * d.execSize.toNat ≤ a →
        (m.write d (fun _ => true) value).registers a = m.registers a := by
  have put (m : Machine) (lane : Nat) (v : UInt64) :
      m.put d.dst lane v = { m with registers := m.registers.store (offset.toNat + 4 * lane) 4 v } := by
    have stride : (strideElems (destinationStride (vectorAt offset t))).toNat = 1 := by
      have horizontal : (Region.ofCounts 8 8 1).horizontal = 1 := by decide
      simp only [destinationStride, vectorAt, Register.vec, horizontal]
      rw [if_neg (by decide)]
      decide
    have step : lane * 1 * 4 = 4 * lane := by omega
    rw [dst]
    simp only [Machine.put, readDestination, stride]
    simp only [vectorAt, Register.vec, Register.byteOffset, offset_split, size_of_isDword dwords, step,
      if_true, Option.isSome_none, Bool.false_eq_true, if_false]
  have along (n : Nat) :
      (∀ lane < n, ((List.range n).foldl (fun acc lane => acc.put d.dst lane (value lane)) m).registers.load
          (offset.toNat + 4 * lane) 4 = (value lane).toUInt32.toUInt64) ∧
        ∀ a, a < offset.toNat ∨ offset.toNat + 4 * n ≤ a →
          ((List.range n).foldl (fun acc lane => acc.put d.dst lane (value lane)) m).registers a =
            m.registers a := by
    induction n with
    | zero => simp
    | succ n ih =>
      obtain ⟨stored, around⟩ := ih
      rw [List.range_succ, List.foldl_append, List.foldl_cons, List.foldl_nil, put]
      refine ⟨?_, ?_⟩
      · intro lane below
        by_cases last : lane = n
        · rw [last]
          exact Memory.load_store_dword _ _ _
        · rw [Memory.load_store_of_apart _ _ (by omega)]
          exact stored lane (by omega)
      · intro a outside
        exact (Memory.store_outside _ _ (by omega)).trans (around a (by omega))
  have all : d.lanes.filter (fun _ => true) = List.range d.execSize.toNat := by
    simp [Decoded.lanes]
  unfold Machine.write
  rw [all]
  exact along d.execSize.toNat

/-- The word of a dword operation computes every lane from what the lane reads. -/
theorem step_effect (m : Machine) (d : Decoded) (first second : Nat → UInt32) {op : Opcode}
    {t t' : Element} {offset : UInt32} (known : op ∈ operations) (opcode : d.opcode = machineOp op)
    (always : d.predicate = 0) (type : d.firstType = t.dataType) (dwords : IsDword t)
    (dwords' : IsDword t') (dst : d.dst = readDestination (vectorAt offset t'))
    (reads : ∀ lane < d.execSize.toNat,
      (m.inputs d lane).getD 0 0 = t.dataType.extend (first lane).toUInt64 ∧
        ((m.inputs d lane).getD 1 0).toUInt32 = second lane) :
    ∃ m', m.step d = some m' ∧
      (∀ lane < d.execSize.toNat, m'.registers.load (offset.toNat + 4 * lane) 4 =
        (result op t (first lane) (second lane)).toUInt64) ∧
      ∀ a, a < offset.toNat ∨ offset.toNat + 4 * d.execSize.toNat ≤ a →
        m'.registers a = m.registers a := by
  have narrow : d.dst.type.is64 = false := by
    rw [dst]
    rcases dwords' with rfl | rfl <;> rfl
  obtain ⟨f, operation, low⟩ := arithmetic_result known opcode type narrow dwords
  have enabled : m.enabled d = fun _ => true := by
    funext lane
    simp [Machine.enabled, always]
  have step : m.step d = some (m.write d (fun _ => true) fun lane =>
      f ((m.inputs d lane).getD 0 0) ((m.inputs d lane).getD 1 0)) := by
    have plain : m.step d = (Machine.arithmetic? d).map fun f =>
        m.map d fun values => f (values.getD 0 0) (values.getD 1 0) := by
      simp only [operations, List.mem_cons, List.not_mem_nil, or_false] at known
      unfold Machine.step
      rcases known with rfl | rfl | rfl | rfl | rfl | rfl | rfl | rfl | rfl | rfl <;>
        simp only [opcode, machineOp]
    rw [plain, operation, Option.map_some, Machine.map, enabled]
  obtain ⟨stored, around⟩ := write_vector m d (fun lane =>
    f ((m.inputs d lane).getD 0 0) ((m.inputs d lane).getD 1 0)) offset dwords' dst
  refine ⟨_, step, ?_, around⟩
  intro lane below
  obtain ⟨one, two⟩ := reads lane below
  rw [stored lane below, one, low, two]

end GpuCodegen.Lanes
