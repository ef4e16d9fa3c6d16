import GpuCodegen.Kernel.Instruction
import GpuCodegen.Machine.Basic

/-! Kernel instructions read directly, as arithmetic on one dword per register and lane, and the words
that compute the same in 64 bits on the bytes of the register file. -/

namespace GpuCodegen.Lanes
open Native

/-! ## Direct interpretation -/

/-- The dword every register holds in every lane. -/
def Values := VReg → Nat → UInt32

/-- The dword of an operand in a lane. -/
def dword (v : Values) (lane : Nat) : Operand → UInt32
  | .register o => v o.reg lane
  | .immediate _ bits _ _ => bits.toUInt32
  | .absent _ => 0

/-- What an instruction reads from an operand in a lane: its dword, widened by its type. -/
def read (v : Values) (lane : Nat) (o : Operand) : UInt64 :=
  o.type.dataType.extend (dword v lane o).toUInt64

/-- The operations on dwords. -/
def operations : List Opcode := [.mov, .not, .add, .mul, .and, .or, .xor, .shl, .shr, .asr]

/-- What an operation makes of two dwords, the first of a given type. Shifts count modulo 32, and an
arithmetic one repeats the sign of a signed dword only. -/
def result (op : Opcode) (t : Element) (a b : UInt32) : UInt32 :=
  match op with
  | .mov => a
  | .not => ~~~a
  | .add => a + b
  | .mul => a * b
  | .and => a &&& b
  | .or => a ||| b
  | .xor => a ^^^ b
  | .shl => a <<< b
  | .shr => a >>> b
  | .asr => if t = .d then ⟨a.toBitVec.sshiftRight (b.toNat % 32)⟩ else a >>> b
  | _ => 0

/-- The dword an instruction computes in a lane. -/
def computed (v : Values) (lane : Nat) (i : Instruction) : UInt32 :=
  let first := i.src.getD 0 default
  result i.op first.type (dword v lane first) (dword v lane (i.src.getD 1 default))

/-- The values after an instruction on `width` lanes. -/
def interpret (width : Nat) (v : Values) (i : Instruction) : Values :=
  match i.dst with
  | .register d => fun r lane => if r = d.reg ∧ lane < width then computed v lane i else v r lane
  | _ => v

/-- The values after a run of instructions. -/
def interpretAll (width : Nat) (v : Values) (is : List Instruction) : Values :=
  is.foldl (interpret width) v

/-! ## Dwords in 64 bits -/

theorem and_31 (b : UInt64) : b &&& 31 = b % 32 := by
  rw [← UInt64.toNat_inj]
  simp only [UInt64.toNat_and, UInt64.toNat_mod]
  exact Nat.and_two_pow_sub_one_eq_mod b.toNat 5

theorem setWidth_signExtend (a : BitVec 32) : (a.signExtend 64).setWidth 32 = a := by
  apply BitVec.eq_of_getLsbD_eq
  intro n small
  have wide : n < 64 := by omega
  simp only [BitVec.getLsbD_setWidth, BitVec.getLsbD_signExtend, small, wide, decide_true, if_true,
    Bool.true_and]

theorem shiftRight_dword (a : UInt32) (b : UInt64) :
    (a.toUInt64 >>> (b &&& 31)).toUInt32 = a >>> b.toUInt32 := by
  rw [← UInt32.toNat_inj, and_31]
  have small : b.toNat % 32 % 64 = b.toNat % 32 := by omega
  have low : b.toNat % 4294967296 % 32 = b.toNat % 32 := by omega
  have least : a.toNat >>> (b.toNat % 32) < 4294967296 :=
    Nat.lt_of_le_of_lt (Nat.shiftRight_le _ _) a.toNat_lt
  simp [UInt64.toNat_shiftRight, UInt32.toNat_shiftRight, small, low, Nat.mod_eq_of_lt least]

theorem smod_of_small (x : BitVec 64) (small : x.toNat < 32) : (x.smod 64).toNat = x.toNat := by
  have positive : x.msb = false := by
    rw [BitVec.msb_eq_false_iff_two_mul_lt]
    omega
  have divisor : (64 : BitVec 64).msb = false := by decide
  rw [BitVec.smod_eq, positive, divisor]
  simp only [BitVec.umod_eq, BitVec.toNat_umod]
  exact Nat.mod_eq_of_lt (show x.toNat < 64 by omega)

theorem arithmeticShift_low (a b : UInt64) :
    (a.toInt64 >>> (b &&& 31).toInt64).toUInt64.toUInt32.toBitVec =
      (a.toBitVec.sshiftRight (b.toNat % 32)).setWidth 32 := by
  rw [and_31]
  have small : (b % 32).toBitVec.toNat < 32 := by
    rw [UInt64.toNat_toBitVec, UInt64.toNat_mod]
    exact Nat.mod_lt _ (by decide)
  simp only [Int64.toBitVec_shiftRight, UInt64.toBitVec_toUInt32, Int64.toBitVec_toUInt64,
    UInt64.toBitVec_toInt64, BitVec.sshiftRight']
  rw [smod_of_small _ small]
  rfl

/-- The low dword of a shifted sign extension is the shifted dword: bits from above are copies of the
sign in both. -/
theorem sshiftRight_signExtend (a : BitVec 32) {n : Nat} (small : n < 32) :
    ((a.signExtend 64).sshiftRight n).setWidth 32 = a.sshiftRight n := by
  apply BitVec.eq_of_getLsbD_eq
  intro j below
  have inside : n + j < 64 := by omega
  simp only [BitVec.getLsbD_setWidth, below, decide_true, Bool.true_and, BitVec.getLsbD_sshiftRight,
    BitVec.getLsbD_signExtend, inside, if_true, show ¬ 64 ≤ j by omega, show ¬ 32 ≤ j by omega,
    decide_false, Bool.not_false]

theorem sshiftRight_setWidth (a : BitVec 32) {n : Nat} (small : n < 32) :
    ((a.setWidth 64).sshiftRight n).setWidth 32 = a >>> n := by
  apply BitVec.eq_of_getLsbD_eq
  intro j below
  have inside : n + j < 64 := by omega
  simp only [BitVec.getLsbD_setWidth, below, decide_true, Bool.true_and, BitVec.getLsbD_sshiftRight,
    inside, if_true, show ¬ 64 ≤ j by omega, decide_false, Bool.not_false, BitVec.getLsbD_ushiftRight]

/-- A dword type. -/
def IsDword (t : Element) : Prop := t = .ud ∨ t = .d

theorem extend_signed (a : UInt32) :
    (Element.d.dataType.extend a.toUInt64).toBitVec = a.toBitVec.signExtend 64 := by
  simp only [Element.dataType, DataType.extend, UInt32.toUInt32_toUInt64]
  rfl

theorem extend_low {t : Element} (dwords : IsDword t) (a : UInt32) :
    (t.dataType.extend a.toUInt64).toUInt32 = a := by
  rcases dwords with rfl | rfl
  · simp [Element.dataType, DataType.extend]
  · rw [← UInt32.toBitVec_inj, UInt64.toBitVec_toUInt32, extend_signed, setWidth_signExtend]

/-- The machine's operation for an operation on dwords. -/
def machineOp : Opcode → Native.Opcode
  | .mov => .mov
  | .not => .not
  | .add => .add
  | .mul => .mul
  | .and => .and
  | .or => .or
  | .xor => .xor
  | .shl => .shl
  | .shr => .shr
  | .asr => .asr
  | _ => .nop

theorem result_asr {t : Element} (dwords : IsDword t) (a : UInt32) (b : UInt64) :
    ((t.dataType.extend a.toUInt64).toInt64 >>> (b &&& 31).toInt64).toUInt64.toUInt32 =
      result .asr t a b.toUInt32 := by
  have below : b.toNat % 32 < 32 := Nat.mod_lt _ (by decide)
  have low : b.toUInt32.toNat % 32 = b.toNat % 32 := by
    rw [UInt64.toNat_toUInt32]
    omega
  rw [← UInt32.toBitVec_inj, arithmeticShift_low]
  rcases dwords with rfl | rfl
  · have zero : (Element.ud.dataType.extend a.toUInt64).toBitVec = a.toBitVec.setWidth 64 := by
      simp [Element.dataType, DataType.extend]
    rw [zero, sshiftRight_setWidth _ below]
    simp only [result, reduceCtorEq, if_false, UInt32.toBitVec_shiftRight]
    apply BitVec.eq_of_toNat_eq
    simp only [BitVec.toNat_ushiftRight, BitVec.ushiftRight_eq', BitVec.toNat_umod]
    change _ = a.toNat >>> (b.toUInt32.toNat % 32)
    rw [low]
    rfl
  · rw [extend_signed, sshiftRight_signExtend _ below]
    simp only [result, if_true, low]

/-- On dwords, the low dword of what the machine computes in 64 bits is the dword operation's result. -/
theorem arithmetic_result {d : Decoded} {op : Opcode} {t : Element} (known : op ∈ operations)
    (opcode : d.opcode = machineOp op) (first : d.firstType = t.dataType) (narrow : d.dst.type.is64 = false)
    (dwords : IsDword t) :
    ∃ f, Machine.arithmetic? d = some f ∧ ∀ (a : UInt32) (b : UInt64),
      (f (t.dataType.extend a.toUInt64) b).toUInt32 = result op t a b.toUInt32 := by
  have mask : d.shiftMask = 31 := by
    have plain : d.firstType.is64 = false := by
      rw [first]
      rcases dwords with rfl | rfl <;> rfl
    simp [Decoded.shiftMask, narrow, plain]
  have size : d.firstType.size = 4 := by
    rw [first]
    rcases dwords with rfl | rfl <;> rfl
  simp only [operations, List.mem_cons, List.not_mem_nil, or_false] at known
  rcases known with rfl | rfl | rfl | rfl | rfl | rfl | rfl | rfl | rfl | rfl <;>
    simp only [Machine.arithmetic?, opcode, machineOp, Option.some.injEq, exists_eq_left', mask] <;>
    intro a b
  · simp [result, extend_low dwords]
  · simp [result, extend_low dwords]
  · simp [result, extend_low dwords]
  · simp [result, extend_low dwords]
  · simp [result, extend_low dwords]
  · simp [result, extend_low dwords]
  · simp [result, extend_low dwords]
  · simp [result, extend_low dwords, and_31]
  · simp only [DataType.clip, size, extend_low dwords]
    exact shiftRight_dword a b
  · exact result_asr dwords a b

end GpuCodegen.Lanes
