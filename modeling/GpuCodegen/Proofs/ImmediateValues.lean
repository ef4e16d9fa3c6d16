import GpuCodegen.Lowering.Emission
import GpuCodegen.Proofs.BitFields

/-! What an immediate operand says as a number. The bits of a kernel immediate count as far as its
element type reaches, a modifier acts on their value, and the hardware reads its own immediate in a type
that is never narrower than a word. The two numbers are compared here, for every integer type, all 64
bits and every combination of modifiers. -/

namespace GpuCodegen.Immediates
open Native

/-! ## Numbers of a width -/

/-- A number reduced to a width: balanced around zero for a signed type, from zero upwards otherwise. -/
def wrapTo (isSigned : Bool) (bits : Nat) (x : Int) : Int :=
  if isSigned then x.bmod (2 ^ bits) else x % (2 ^ bits : Nat)

/-- Whether the elements of a type have a sign. -/
def isSigned : DataType → Bool
  | .d | .w | .b | .l => true
  | _ => false

/-- The value of a hardware immediate: the low bits that its type covers, by the sign of the type. -/
def value (r : Register) : Int := wrapTo (isSigned r.type) (8 * r.type.size) r.immediate.toNat

/-- Whether an element is an integer. -/
def isInteger : Element → Bool
  | .f | .df | .hf | .unknown => false
  | _ => true

/-- A number reduced to an element type. -/
def reduce (t : Element) (x : Int) : Int := wrapTo (isSigned t.dataType) (8 * t.size) x

/-- A number after the modifiers of a source: first the absolute value, then the negation. -/
def modified (negate absolute : Bool) (x : Int) : Int :=
  let x := if absolute then (x.natAbs : Int) else x
  if negate then -x else x

theorem wrapTo_congr {isSigned : Bool} {bits : Nat} {x y : Int}
    (same : x % (2 ^ bits : Nat) = y % (2 ^ bits : Nat)) :
    wrapTo isSigned bits x = wrapTo isSigned bits y := by
  unfold wrapTo
  split
  · rw [← Int.emod_bmod x, ← Int.emod_bmod y, same]
  · exact same

theorem wrapTo_emod (isSigned : Bool) (bits : Nat) (x : Int) :
    wrapTo isSigned bits x % (2 ^ bits : Nat) = x % (2 ^ bits : Nat) := by
  unfold wrapTo
  split
  · exact Int.bmod_emod
  · exact Int.emod_emod_of_dvd x (Int.dvd_refl _)

theorem wrapTo_inj {isSigned : Bool} {bits : Nat} {x y : Int} :
    wrapTo isSigned bits x = wrapTo isSigned bits y ↔ x % (2 ^ bits : Nat) = y % (2 ^ bits : Nat) := by
  refine ⟨fun same => ?_, wrapTo_congr⟩
  rw [← wrapTo_emod isSigned bits x, same, wrapTo_emod]

/-! ## What the hardware reads -/

/-- The number an immediate's bits stand for once a negation is folded into them. -/
def signedBits (bits : UInt64) (negate : Bool) : Int := modified negate false bits.toNat

theorem immediateBits_emod {t : Element} (integer : isInteger t = true) (bits : UInt64) (negate : Bool)
    {n : Nat} (narrow : n ≤ 64) :
    ((Emission.immediateBits t bits negate).toNat : Int) % (2 ^ n : Nat) =
      signedBits bits negate % (2 ^ n : Nat) := by
  cases negate with
  | false => rfl
  | true =>
    have folded : Emission.immediateBits t bits true = 0 - bits := by
      cases t <;> first | rfl | cases integer
    have divides : ((2 ^ n : Nat) : Int) ∣ 2 ^ 64 := by exact_mod_cast Nat.pow_dvd_pow 2 narrow
    have below := bits.toNat_lt
    have wrapped : (((0 - bits : UInt64).toNat : Nat) : Int) = (-(bits.toNat : Int) + 2 ^ 64) % 2 ^ 64 := by
      rw [UInt64.toNat_sub, UInt64.toNat_zero]
      omega
    obtain ⟨k, whole⟩ := divides
    rw [folded, wrapped, Int.emod_emod_of_dvd _ ⟨k, whole⟩, whole, Int.add_mul_emod_self_left]
    rfl

/-- Word immediates are read from their low half. -/
theorem replicated_emod (v : UInt16) : ((Register.replicated v).toNat : Int) % (2 ^ 16 : Nat) = v.toNat := by
  have small := v.toNat_lt
  have high : (v.toNat <<< 16) % 2 ^ 64 % 2 ^ 16 = 0 := by
    rw [Nat.mod_mod_of_dvd _ (Nat.pow_dvd_pow 2 (by decide)), Nat.shiftLeft_eq, Nat.mul_mod_left]
  have low : (Register.replicated v).toNat % 2 ^ 16 = v.toNat := by
    have shifted : (v.toUInt64 <<< 16).toNat = (v.toNat <<< 16) % 2 ^ 64 := by
      simp [UInt64.toNat_shiftLeft]
    rw [Register.replicated, UInt64.toNat_or, shifted, UInt16.toNat_toUInt64, Nat.or_mod_two_pow, high,
      Nat.or_zero, Nat.mod_eq_of_lt small]
  exact_mod_cast low

/-- A signed byte in a word immediate. -/
theorem signedByte_value (v : UInt64) :
    wrapTo true 16 (Emission.signedByte v).toNat = wrapTo true 8 v.toNat := by
  have word (x : Int16) : (x.toUInt16.toNat : Int).bmod (2 ^ 16) = x.toInt := by
    rw [Int16.toInt, ← Int16.toBitVec_toUInt16, BitVec.toInt_eq_toNat_bmod, UInt16.toNat_toBitVec]
  have byte (x : UInt8) : x.toInt8.toInt = (x.toNat : Int).bmod (2 ^ 8) := by
    rw [Int8.toInt, UInt8.toBitVec_toInt8, BitVec.toInt_eq_toNat_bmod, UInt8.toNat_toBitVec]
  have cut : ((Emission.signedByte v).toNat : Int).bmod (2 ^ 16) = (v.toNat : Int).bmod (2 ^ 8) := by
    rw [Emission.signedByte, word, Int8.toInt_toInt16, byte, UInt64.toNat_toUInt8, Int.natCast_emod]
    exact Int.emod_bmod _ _
  simpa only [wrapTo, if_true] using cut

/-- A signed byte is widened before it is replicated. -/
theorem replicated_signedByte (v : UInt64) :
    wrapTo true 16 (Register.replicated (Emission.signedByte v)).toNat = wrapTo true 8 v.toNat := by
  have small : ((Emission.signedByte v).toNat : Int) < (2 ^ 16 : Nat) :=
    Int.ofNat_lt.mpr (Emission.signedByte v).toNat_lt
  rw [← signedByte_value v, wrapTo_inj, replicated_emod, Int.emod_eq_of_lt (Int.natCast_nonneg _) small]

/-- The width an immediate is read in: bytes without a sign are widened to words. -/
def readWidth (t : Element) : Nat := if t = .ub then 16 else 8 * t.size

/-- The immediate of an operand and the number the hardware reads. The negation is folded into the bits,
the absolute value is not. -/
theorem operand_value {t : Element} (integer : isInteger t = true) (a : Allocation) (width : Int)
    (bits : UInt64) (negate absolute : Bool) :
    ∃ r, Emission.operand a width (.immediate t bits negate absolute) = .ok r ∧ r.file = .imm ∧
      r.negate = false ∧ r.absolute = false ∧
      value r = wrapTo (isSigned t.dataType) (readWidth t) (signedBits bits negate) := by
  have low {n x : Nat} (narrow : n ≤ 64)
      (cut : x % 2 ^ n = (Emission.immediateBits t bits negate).toNat % 2 ^ n) :
      (x : Int) % (2 ^ n : Nat) = signedBits bits negate % (2 ^ n : Nat) := by
    rw [← immediateBits_emod integer bits negate narrow, ← Int.natCast_emod, ← Int.natCast_emod, cut]
  have word (v : UInt16) (cut : v.toNat = (Emission.immediateBits t bits negate).toNat % 2 ^ 16) :
      ((Register.replicated v).toNat : Int) % (2 ^ 16 : Nat) = signedBits bits negate % (2 ^ 16 : Nat) := by
    rw [replicated_emod, cut, ← low (Nat.le_of_ble_eq_true rfl) rfl, Int.natCast_emod]
  cases t with
  | ud =>
    exact ⟨_, rfl, rfl, rfl, rfl,
      wrapTo_congr (low (n := 32) (by decide) (by simp [Register.immUD, Register.imm]))⟩
  | d =>
    exact ⟨_, rfl, rfl, rfl, rfl,
      wrapTo_congr (low (n := 32) (by decide) (by simp [Register.immD, Register.imm]))⟩
  | uw => exact ⟨_, rfl, rfl, rfl, rfl, wrapTo_congr (word _ (by simp))⟩
  | w => exact ⟨_, rfl, rfl, rfl, rfl, wrapTo_congr (word _ (by simp))⟩
  | ub => exact ⟨_, rfl, rfl, rfl, rfl, wrapTo_congr (word _ (by simp))⟩
  | b =>
    have byte := low (n := 8) (by decide) rfl
    exact ⟨_, rfl, rfl, rfl, rfl, (replicated_signedByte _).trans (wrapTo_congr byte)⟩
  | ul => exact ⟨_, rfl, rfl, rfl, rfl,
      wrapTo_congr (low (n := 64) (by decide) (by simp [Register.immUL, Register.imm]))⟩
  | l => exact ⟨_, rfl, rfl, rfl, rfl,
      wrapTo_congr (low (n := 64) (by decide) (by simp [Register.immL, Register.imm]))⟩
  | f | df | hf | unknown => cases integer

/-! ## What the operand says -/

/-- A negation keeps numbers apart that are apart modulo some number. -/
theorem modified_emod_inj (negate : Bool) (x y n : Int) :
    modified negate false x % n = modified negate false y % n ↔ x % n = y % n := by
  cases negate with
  | false => exact Iff.rfl
  | true =>
    have opposite : -x - -y = -(x - y) := by omega
    rw [Int.emod_eq_emod_iff_emod_sub_eq_zero, Int.emod_eq_emod_iff_emod_sub_eq_zero,
      ← Int.dvd_iff_emod_eq_zero, ← Int.dvd_iff_emod_eq_zero, ← Int.dvd_neg (b := x - y), ← opposite]
    rfl

theorem neg_bound {isSigned : Bool} {half : Nat} {bits : Nat} (even : 2 ^ bits = 2 * half) (x : Int) :
    -(half : Int) ≤ wrapTo isSigned bits x := by
  unfold wrapTo
  split
  · have least := Int.le_bmod (x := x) (m := 2 ^ bits) (Nat.two_pow_pos bits)
    rw [even] at least ⊢
    omega
  · have least := Int.emod_nonneg x (b := (2 ^ bits : Nat)) (by have := Nat.two_pow_pos bits; omega)
    omega

/-- The absolute value of a reduced number is congruent to the number where it changes nothing, and at the
least number, which has no opposite. -/
theorem natAbs_emod {isSigned : Bool} {half : Nat} {bits : Nat} (even : 2 ^ bits = 2 * half) (x : Int) :
    wrapTo isSigned bits x % (2 ^ bits : Nat) = ((wrapTo isSigned bits x).natAbs : Int) % (2 ^ bits : Nat) ↔
      0 ≤ wrapTo isSigned bits x ∨ wrapTo isSigned bits x = -half := by
  have least := @neg_bound isSigned half bits even x
  generalize wrapTo isSigned bits x = v at least ⊢
  rcases Int.lt_or_le v 0 with negative | positive
  · have size : (v.natAbs : Int) = -v := by omega
    have twice : v - -v = 2 * v := by omega
    rw [size, Int.emod_eq_emod_iff_emod_sub_eq_zero, ← Int.dvd_iff_emod_eq_zero, twice, even]
    have cancelled : ((2 * half : Nat) : Int) ∣ 2 * v ↔ (half : Int) ∣ -v := by
      rw [Int.dvd_neg, Int.natCast_mul]
      exact Int.mul_dvd_mul_iff_left (by decide)
    rw [cancelled]
    constructor
    · intro divides
      have := Int.le_of_dvd (by omega) divides
      omega
    · rintro (positive | rfl)
      · omega
      · exact ⟨1, by omega⟩
  · have size : (v.natAbs : Int) = v := by omega
    simp [size, positive]

/-- The operand's number, reduced to its element type, and the bits the hardware gets are congruent exactly
where the absolute value changes nothing modulo the width. -/
theorem signedBits_emod (t : Element) (bits : UInt64) (negate absolute : Bool) :
    signedBits bits negate % (2 ^ (8 * t.size) : Nat) =
        modified negate absolute (reduce t bits.toNat) % (2 ^ (8 * t.size) : Nat) ↔
      (absolute = true → 0 ≤ reduce t bits.toNat ∨ reduce t bits.toNat = -(2 ^ (8 * t.size - 1) : Nat)) := by
  have even : 2 ^ (8 * t.size) = 2 * 2 ^ (8 * t.size - 1) := by cases t <;> rfl
  have cut := wrapTo_emod (isSigned t.dataType) (8 * t.size) bits.toNat
  cases absolute with
  | false =>
    refine iff_of_true ((modified_emod_inj negate _ _ _).mpr cut.symm) (fun absolute => by cases absolute)
  | true =>
    have magnitude : modified negate true (reduce t bits.toNat) =
        modified negate false (reduce t bits.toNat).natAbs := rfl
    rw [magnitude, signedBits, modified_emod_inj, ← cut]
    exact (natAbs_emod even _).trans (by simp [reduce])

/-- Whether a hardware immediate says what the operand says: an unsigned byte must not need more than its
byte once the negation is folded in, and the absolute value of a negative number must be the number itself,
which holds of the least number of a type alone. -/
def Kept (t : Element) (bits : UInt64) (negate absolute : Bool) : Prop :=
  (t = .ub → signedBits bits negate % (2 ^ 16 : Nat) < 2 ^ 8) ∧
    (absolute = true → 0 ≤ reduce t bits.toNat ∨ reduce t bits.toNat = -(2 ^ (8 * t.size - 1) : Nat))

/-- Every integer immediate becomes a hardware immediate without modifiers, and its number is that of the
operand — the bits reduced to the element type, then the absolute value, then the negation, reduced again —
unless an unsigned byte needs more than a byte or the absolute value had something to do. -/
theorem operand_keeps_value {t : Element} (integer : isInteger t = true) (a : Allocation) (width : Int)
    (bits : UInt64) (negate absolute : Bool) :
    ∃ r, Emission.operand a width (.immediate t bits negate absolute) = .ok r ∧ r.file = .imm ∧
      r.negate = false ∧ r.absolute = false ∧
      (value r = reduce t (modified negate absolute (reduce t bits.toNat)) ↔ Kept t bits negate absolute) := by
  obtain ⟨r, immediate, file, unnegated, signed, read⟩ := operand_value integer a width bits negate absolute
  refine ⟨r, immediate, file, unnegated, signed, ?_⟩
  have congruent := signedBits_emod t bits negate absolute
  rw [read, Kept, ← congruent]
  by_cases byte : t = .ub
  · subst byte
    have cut : signedBits bits negate % (2 ^ 16 : Nat) % (2 ^ 8 : Nat) = signedBits bits negate % (2 ^ 8 : Nat) :=
      Int.emod_emod_of_dvd _ ⟨2 ^ 8, rfl⟩
    have less := Int.emod_lt_of_pos (modified negate absolute (reduce .ub bits.toNat))
      (b := (2 ^ 8 : Nat)) (by decide)
    generalize modified negate absolute (reduce .ub bits.toNat) = y at less ⊢
    generalize signedBits bits negate = x at cut ⊢
    simp only [true_implies]
    change x % (2 ^ 16 : Nat) = y % (2 ^ 8 : Nat) ↔
      x % (2 ^ 16 : Nat) < 2 ^ 8 ∧ x % (2 ^ 8 : Nat) = y % (2 ^ 8 : Nat)
    omega
  · rw [readWidth, if_neg byte, reduce, wrapTo_inj]
    exact ⟨fun same => ⟨fun unsigned => absurd unsigned byte, same⟩, fun kept => kept.2⟩

/-- The placement of a kernel without registers. -/
def unplaced : Allocation where
  kernel := { name := "unplaced", simdWidth := 8 }
  offsets := {}

/-- The least signed byte: its magnitude and its opposite are the byte itself. -/
theorem operand_keeps_value_leastByte : isInteger .b = true ∧
    ∃ r, Emission.operand unplaced 8 (.immediate .b 0xfffffffffffff780 true true) = .ok r ∧ r.file = .imm ∧
      r.negate = false ∧ r.absolute = false ∧ reduce .b (0xfffffffffffff780 : UInt64).toNat = -128 ∧
      value r = reduce .b (modified true true (-128)) ∧ value r = -128 := by
  have integer : isInteger .b = true := rfl
  obtain ⟨r, immediate, file, unnegated, signed, same⟩ :=
    operand_keeps_value integer unplaced 8 0xfffffffffffff780 true true
  have least : reduce .b (0xfffffffffffff780 : UInt64).toNat = -128 := by decide
  have kept := same.mpr ⟨by decide, fun _ => .inr (by rw [least]; rfl)⟩
  rw [least] at kept
  exact ⟨integer, r, immediate, file, unnegated, signed, least, kept, kept.trans (by decide)⟩

/-- An unsigned byte is not cut: the negation of five is read as a whole word. -/
theorem unsignedByte_uncut : ∃ r, Emission.operand unplaced 8 (.immediate .ub 5 true false) = .ok r ∧
    value r = 65531 ∧ reduce .ub (modified true false (reduce .ub (5 : UInt64).toNat)) = 251 :=
  ⟨_, rfl, by decide, by decide⟩

/-- The absolute value is dropped: the magnitude of minus one is read as minus one. -/
theorem magnitude_dropped : ∃ r, Emission.operand unplaced 8 (.immediate .d 0xffffffff false true) = .ok r ∧
    value r = -1 ∧ reduce .d (modified false true (reduce .d (0xffffffff : UInt64).toNat)) = 1 :=
  ⟨_, rfl, by decide, by decide⟩

end GpuCodegen.Immediates
