import Mathlib.Algebra.Group.Int.Defs
import Mathlib.Algebra.Group.Nat.Defs
import GpuCodegen.Native.Field

/-! Storing into one field of a word and reading another. A word is seen as its 128 bits; a field reads
the bits of its range and a store replaces exactly those. Two fields without a common bit therefore
do not notice each other, which is all that encoding and decoding need to know about the halves of a
word, shifts and masks. A signed value comes back from a split field exactly if it is in range, because
nothing out of range is ever read from one. -/

namespace GpuCodegen.Native

/-- The bit of a word at a position, counted from the least significant. -/
def Word.bit (w : Word) (i : Nat) : Bool :=
  if i < 64 then w.low.toNat.testBit i else w.high.toNat.testBit (i - 64)

/-- Halves with the same bits are the same. -/
theorem half_ext {a b : UInt64} (same : ∀ i < 64, a.toNat.testBit i = b.toNat.testBit i) : a = b := by
  apply UInt64.toNat_inj.mp
  apply Nat.eq_of_testBit_eq
  intro i
  by_cases inside : i < 64
  · exact same i inside
  · have beyond (v : UInt64) : v.toNat.testBit i = false :=
      Nat.testBit_lt_two_pow (Nat.lt_of_lt_of_le v.toNat_lt (Nat.pow_le_pow_right (by decide) (Nat.not_lt.mp inside)))
    rw [beyond, beyond]

/-- Words with the same bits are the same. -/
theorem Word.ext_bit {w v : Word} (same : ∀ i < 128, w.bit i = v.bit i) : w = v := by
  have low : w.low = v.low := half_ext fun i inside => by
    have here := same i (by omega)
    rwa [Word.bit, Word.bit, if_pos inside, if_pos inside] at here
  have high : w.high = v.high := half_ext fun i inside => by
    have here := same (64 + i) (by omega)
    rwa [Word.bit, Word.bit, if_neg (by omega), if_neg (by omega), Nat.add_sub_cancel_left] at here
  cases w
  cases v
  rw [Word.mk.injEq]
  exact ⟨low, high⟩

namespace Field

/-- A field of at most 32 bits inside one half of the word. -/
structure Proper (f : Field) : Prop where
  ordered : f.lo ≤ f.hi
  narrow : f.hi < f.lo + 32
  oneHalf : f.lo / 64 = f.hi / 64
  inside : f.hi < 128

instance (f : Field) : Decidable f.Proper :=
  decidable_of_iff (f.lo ≤ f.hi ∧ f.hi < f.lo + 32 ∧ f.lo / 64 = f.hi / 64 ∧ f.hi < 128)
    ⟨fun ⟨a, b, c, d⟩ => ⟨a, b, c, d⟩, fun ⟨a, b, c, d⟩ => ⟨a, b, c, d⟩⟩

/-- Two proper fields without a common bit. -/
def Apart (f g : Field) : Prop := f.Proper ∧ g.Proper ∧ (f.hi < g.lo ∨ g.hi < f.lo)

instance (f g : Field) : Decidable (f.Apart g) :=
  inferInstanceAs (Decidable (f.Proper ∧ g.Proper ∧ (f.hi < g.lo ∨ g.hi < f.lo)))

variable {f g : Field}

theorem Proper.present (proper : f.Proper) : f.present = true := by
  simp [Field.present, proper.ordered]

theorem Proper.width_eq (proper : f.Proper) : f.width = f.hi - f.lo + 1 := by
  simp [Field.width, proper.present]

theorem Proper.width_le (proper : f.Proper) : f.width ≤ 32 := by
  rw [proper.width_eq]
  have narrow := proper.narrow
  omega

theorem max_toNat (proper : f.Proper) : f.max.toNat = 2 ^ f.width - 1 := by
  have width := proper.width_le
  have small : 2 ^ f.width < 2 ^ 64 := Nat.pow_lt_pow_right (by omega) (by omega)
  have positive : 0 < 2 ^ f.width := Nat.two_pow_pos _
  have power : ((1 : UInt64) <<< UInt64.ofNat f.width).toNat = 2 ^ f.width := by
    simp only [UInt64.toNat_shiftLeft, UInt64.toNat_ofNat', UInt64.toNat_one]
    rw [Nat.mod_eq_of_lt (show f.width < 2 ^ 64 by omega), Nat.mod_eq_of_lt (show f.width < 64 by omega),
      Nat.shiftLeft_eq, Nat.one_mul, Nat.mod_eq_of_lt small]
  rw [Field.max, if_pos (by omega), UInt64.toNat_sub_of_le _ _ (by
    rw [UInt64.le_iff_toNat_le, power]
    exact positive), power]
  rfl

theorem shift_toNat (f : Field) : f.shift.toNat = f.lo % 64 := by
  simp only [shift, UInt64.toNat_ofNat']
  omega

/-- A field reads the bits of its range, the lowest first. -/
theorem testBit_get (proper : f.Proper) (w : Word) (i : Nat) :
    (f.get w).toNat.testBit i = (decide (i < f.width) && w.bit (f.lo + i)) := by
  have width := proper.width_le
  have ends := proper.width_eq
  have ordered := proper.ordered
  have oneHalf := proper.oneHalf
  have inside := proper.inside
  simp only [get, proper.present, ↓reduceIte, UInt64.toNat_toUInt32, UInt64.toNat_and,
    UInt64.toNat_shiftRight, shift_toNat, max_toNat proper, Nat.testBit_mod_two_pow,
    Nat.testBit_and, Nat.testBit_shiftRight, Nat.testBit_two_pow_sub_one, Nat.mod_mod]
  by_cases within : i < f.width
  · simp only [within, decide_true, Bool.and_true, Bool.true_and, show i < 32 by omega, half, Word.bit]
    by_cases low : f.lo < 64
    · rw [if_pos low, if_pos (by omega), Nat.mod_eq_of_lt low]
    · rw [if_neg low, if_neg (by omega)]
      congr 1
      omega
  · simp [within]

private theorem testBit_not (h : UInt64) (i : Nat) :
    (~~~h).toNat.testBit i = (decide (i < 64) && !h.toNat.testBit i) := by
  rw [UInt64.toNat_not, show UInt64.size - 1 - h.toNat = 2 ^ 64 - (h.toNat + 1) by
    simp only [UInt64.size]; omega]
  exact Nat.testBit_two_pow_sub_succ h.toNat_lt i

private theorem testBit_mask (proper : f.Proper) (i : Nat) (below : i < 64) :
    f.mask.toNat.testBit i = decide (f.lo % 64 ≤ i ∧ i ≤ f.hi % 64) := by
  have ends := proper.width_eq
  have ordered := proper.ordered
  have oneHalf := proper.oneHalf
  simp only [mask, UInt64.toNat_shiftLeft, max_toNat proper, shift_toNat, Nat.testBit_mod_two_pow,
    Nat.testBit_shiftLeft, Nat.testBit_two_pow_sub_one, Nat.mod_mod, below, decide_true,
    Bool.true_and, ← Bool.decide_and]
  congr 1
  apply propext
  omega

/-- A field holds as many values as its bits. -/
theorem get_lt (proper : f.Proper) (w : Word) : (f.get w).toNat < 2 ^ f.width := by
  apply Nat.lt_pow_two_of_testBit
  intro i beyond
  rw [testBit_get proper, decide_eq_false (by omega), Bool.false_and]

/-- A store replaces the bits of the field in its half. -/
private theorem testBit_setHalf (proper : f.Proper) (v : UInt32) (h : UInt64) (i : Nat)
    (below : i < 64) :
    (f.setHalf v h).toNat.testBit i =
      if f.lo % 64 ≤ i ∧ i ≤ f.hi % 64 then v.toNat.testBit (i - f.lo % 64)
      else h.toNat.testBit i := by
  have moved : (v.toUInt64 <<< f.shift).toNat.testBit i =
      (decide (f.lo % 64 ≤ i) && v.toNat.testBit (i - f.lo % 64)) := by
    simp only [UInt64.toNat_shiftLeft, UInt32.toNat_toUInt64, shift_toNat, Nat.mod_mod,
      Nat.testBit_mod_two_pow, Nat.testBit_shiftLeft, below, decide_true, Bool.true_and, ge_iff_le]
  simp only [setHalf, UInt64.toNat_or, UInt64.toNat_and, Nat.testBit_or, Nat.testBit_and,
    testBit_not, testBit_mask proper i below, moved, below, decide_true, Bool.true_and]
  by_cases within : f.lo % 64 ≤ i ∧ i ≤ f.hi % 64
  · simp [within]
  · simp [within]

/-- A store replaces the bits of its range and leaves every other bit of the word. -/
theorem bit_set (proper : f.Proper) (v : UInt32) (w : Word) (i : Nat) (below : i < 128) :
    (f.set v w).bit i =
      if f.lo ≤ i ∧ i ≤ f.hi then v.toNat.testBit (i - f.lo) else w.bit i := by
  have ordered := proper.ordered
  have oneHalf := proper.oneHalf
  have inside := proper.inside
  simp only [set, proper.present, ↓reduceIte]
  by_cases low : f.lo < 64
  · simp only [low, ↓reduceIte, Word.bit]
    by_cases lower : i < 64
    · simp only [lower, ↓reduceIte, testBit_setHalf proper v w.low i lower, Nat.mod_eq_of_lt low,
        Nat.mod_eq_of_lt (show f.hi < 64 by omega)]
    · rw [if_neg lower, if_neg (by omega), if_neg lower]
  · simp only [low, ↓reduceIte, Word.bit]
    by_cases lower : i < 64
    · rw [if_pos lower, if_neg (by omega), if_pos lower]
    · simp only [lower, ↓reduceIte, testBit_setHalf proper v w.high (i - 64) (by omega)]
      have sameRange : f.lo % 64 ≤ i - 64 ∧ i - 64 ≤ f.hi % 64 ↔ f.lo ≤ i ∧ i ≤ f.hi := by omega
      have samePlace : i - 64 - f.lo % 64 = i - f.lo := by omega
      simp only [sameRange, samePlace]

/-- Reading a field back gives the stored value, cut to the width of the field. -/
theorem get_set_toNat (proper : f.Proper) (v : UInt32) (w : Word) :
    (f.get (f.set v w)).toNat = v.toNat % 2 ^ f.width := by
  have ends := proper.width_eq
  have ordered := proper.ordered
  have inside := proper.inside
  apply Nat.eq_of_testBit_eq
  intro i
  rw [testBit_get proper, Nat.testBit_mod_two_pow]
  by_cases within : i < f.width
  · rw [bit_set proper v w _ (by omega), if_pos (by omega), Nat.add_sub_cancel_left]
  · simp [within]

/-- A value that fits its field is read back unchanged. -/
theorem get_set (proper : f.Proper) (v : UInt32) (w : Word) (fits : v.toNat < 2 ^ f.width) :
    f.get (f.set v w) = v := by
  apply UInt32.toNat_inj.mp
  rw [get_set_toNat proper, Nat.mod_eq_of_lt fits]

/-- The check before a store: the value is below the number of values of the field. -/
theorem fits_iff (proper : f.Proper) (v : UInt32) : f.fits v = true ↔ v.toNat < 2 ^ f.width := by
  have positive : 0 < 2 ^ f.width := Nat.two_pow_pos _
  simp only [fits, decide_eq_true_eq, UInt64.le_iff_toNat_le, UInt32.toNat_toUInt64, max_toNat proper]
  omega

/-- A store does not change a field without a common bit. -/
theorem get_set_of_apart (apart : f.Apart g) (v : UInt32) (w : Word) :
    f.get (g.set v w) = f.get w := by
  obtain ⟨properF, properG, disjoint⟩ := apart
  have ends := properF.width_eq
  have ordered := properF.ordered
  have inside := properF.inside
  apply UInt32.toNat_inj.mp
  apply Nat.eq_of_testBit_eq
  intro i
  rw [testBit_get properF, testBit_get properF]
  by_cases within : i < f.width
  · rw [bit_set properG v w _ (by omega), if_neg (by omega)]
  · simp [within]

/-- Storing what was read changes nothing. -/
theorem set_get (proper : f.Proper) (w : Word) : f.set (f.get w) w = w := by
  have ends := proper.width_eq
  refine Word.ext_bit fun i below => ?_
  rw [bit_set proper _ _ _ below]
  split
  · rename_i within
    have inside : i - f.lo < f.width := by omega
    have place : f.lo + (i - f.lo) = i := by omega
    rw [testBit_get proper, decide_eq_true inside, Bool.true_and, place]
  · rfl

/-- Stores to fields without a common bit can be exchanged. -/
theorem set_comm (apart : f.Apart g) (u v : UInt32) (w : Word) : f.set v (g.set u w) = g.set u (f.set v w) := by
  obtain ⟨properF, properG, disjoint⟩ := apart
  refine Word.ext_bit fun i below => ?_
  rw [bit_set properF _ _ _ below, bit_set properG _ _ _ below, bit_set properG _ _ _ below,
    bit_set properF _ _ _ below]
  by_cases within : f.lo ≤ i ∧ i ≤ f.hi
  · rw [if_pos within, if_neg (by omega), if_pos within]
  · rw [if_neg within, if_neg within]

private theorem setHalf_setHalf (f : Field) (u v : UInt32) (h : UInt64) :
    f.setHalf v (f.setHalf u h) = f.setHalf v h := by
  unfold setHalf
  apply UInt64.toBitVec_inj.mp
  ext i inside
  simp only [UInt64.toBitVec_or, UInt64.toBitVec_and, UInt64.toBitVec_not, BitVec.getElem_or, BitVec.getElem_and,
    BitVec.getElem_not]
  cases f.mask.toBitVec[i] <;> simp

/-- The last store to a field counts. -/
theorem set_set (f : Field) (u v : UInt32) (w : Word) : f.set v (f.set u w) = f.set v w := by
  unfold set
  split
  · split <;> simp only [setHalf_setHalf]
  · rfl

/-- Every field of the clear word reads zero. -/
@[simp] theorem get_zero (f : Field) : f.get .zero = 0 := by
  unfold get half Word.zero
  split <;> simp

theorem set_not_present (missing : f.present = false) (v : UInt32) (w : Word) : f.set v w = w := by
  simp [set, missing]

theorem get_not_present (missing : f.present = false) (w : Word) : f.get w = 0 := by
  simp [get, missing]

end Field

namespace SplitField

/-- Two parts without a common bit that hold a value of at most 32 bits together; the top part may be
missing. -/
def Proper (s : SplitField) : Prop :=
  s.low.Proper ∧ (s.high.present = false ∨ s.low.Apart s.high) ∧ s.width ≤ 32

instance (s : SplitField) : Decidable s.Proper :=
  inferInstanceAs
    (Decidable (s.low.Proper ∧ (s.high.present = false ∨ s.low.Apart s.high) ∧ s.width ≤ 32))

/-- A split field whose parts share no bit with a field. -/
def ApartFrom (s : SplitField) (f : Field) : Prop :=
  f.Apart s.low ∧ (s.high.present = false ∨ f.Apart s.high)

instance (s : SplitField) (f : Field) : Decidable (s.ApartFrom f) :=
  inferInstanceAs (Decidable (f.Apart s.low ∧ (s.high.present = false ∨ f.Apart s.high)))

variable {s : SplitField} {f : Field}

/-- A store into a split field does not change a field without a common bit. -/
theorem get_setSigned_of_apart (apart : s.ApartFrom f) (v : Int32) (w : Word) :
    f.get (s.setSigned v w) = f.get w := by
  unfold setSigned set
  rcases apart.2 with missing | apartHigh
  · rw [Field.set_not_present missing, Field.get_set_of_apart apart.1]
  · rw [Field.get_set_of_apart apartHigh, Field.get_set_of_apart apart.1]

private theorem testBit_shiftUp (v : UInt32) (n i : Nat) :
    (shiftUp v n).toNat.testBit i = (decide (i < 32) && decide (n ≤ i) && v.toNat.testBit (i - n)) := by
  unfold shiftUp
  split
  · rename_i small
    simp only [UInt32.toNat_shiftLeft, UInt32.toNat_ofNat', Nat.testBit_mod_two_pow, Nat.testBit_shiftLeft]
    rw [Nat.mod_eq_of_lt (show n < 2 ^ 32 by omega), Nat.mod_eq_of_lt small]
    simp [Bool.and_assoc]
  · rename_i large
    by_cases low : i < 32
    · simp [show ¬ n ≤ i by omega]
    · simp [low]

private theorem testBit_shiftDown (v : UInt32) (n i : Nat) :
    (shiftDown v n).toNat.testBit i = v.toNat.testBit (n + i) := by
  unfold shiftDown
  split
  · rename_i small
    simp only [UInt32.toNat_shiftRight, UInt32.toNat_ofNat', Nat.testBit_shiftRight]
    rw [Nat.mod_eq_of_lt (show n < 2 ^ 32 by omega), Nat.mod_eq_of_lt small]
  · rename_i large
    have beyond : v.toNat < 2 ^ (n + i) :=
      Nat.lt_of_lt_of_le v.toNat_lt (Nat.pow_le_pow_right (by omega) (by omega))
    simp [Nat.testBit_lt_two_pow beyond]

/-- Reading both parts back gives the stored value, cut to the combined width. -/
theorem get_set_toNat (proper : s.Proper) (v : UInt32) (w : Word) :
    (s.get (s.set v w)).toNat = v.toNat % 2 ^ s.width := by
  obtain ⟨properLow, parts, narrow⟩ := proper
  have low : s.low.get (s.set v w) = s.low.get (s.low.set v w) := by
    unfold set
    rcases parts with missing | apart
    · rw [Field.set_not_present missing]
    · rw [Field.get_set_of_apart apart]
  have high (i : Nat) : (s.high.get (s.set v w)).toNat.testBit i =
      (decide (i < s.high.width) && v.toNat.testBit (s.low.width + i)) := by
    unfold set
    rcases parts with missing | apart
    · simp [Field.get_not_present missing, Field.width, missing]
    · rw [Field.get_set_toNat apart.2.1, Nat.testBit_mod_two_pow, testBit_shiftDown]
  apply Nat.eq_of_testBit_eq
  intro i
  simp only [get, UInt32.toNat_or, Nat.testBit_or, low, Field.get_set_toNat properLow, high,
    testBit_shiftUp, Nat.testBit_mod_two_pow]
  unfold width at narrow ⊢
  by_cases first : i < s.low.width
  · simp [first, show i < s.low.width + s.high.width by omega, show ¬ s.low.width ≤ i by omega]
  · have place : s.low.width + (i - s.low.width) = i := by omega
    by_cases second : i < s.low.width + s.high.width
    · simp [first, second, place, show i < 32 by omega, show s.low.width ≤ i by omega,
        show i - s.low.width < s.high.width by omega]
    · simp [first, second, show ¬ i - s.low.width < s.high.width by omega]

/-- Both parts together hold as many values as their bits. -/
theorem get_lt (proper : s.Proper) (w : Word) : (s.get w).toNat < 2 ^ s.width := by
  obtain ⟨properLow, parts, -⟩ := proper
  have high : (s.high.get w).toNat < 2 ^ s.high.width := by
    rcases parts with missing | apart
    · rw [Field.get_not_present missing]
      exact Nat.two_pow_pos _
    · exact Field.get_lt apart.2.1 w
  apply Nat.lt_pow_two_of_testBit
  intro i beyond
  unfold width at beyond
  have low : (s.low.get w).toNat.testBit i = false := by
    rw [Field.testBit_get properLow, decide_eq_false (by omega), Bool.false_and]
  have top : (s.high.get w).toNat.testBit (i - s.low.width) = false :=
    Nat.testBit_lt_two_pow (Nat.lt_of_lt_of_le high (Nat.pow_le_pow_right (by decide) (by omega)))
  rw [get, UInt32.toNat_or, Nat.testBit_or, low, testBit_shiftUp, top, Bool.and_false, Bool.or_false]

private theorem toUInt32_emod (v : Int32) {n : Nat} (narrow : n ≤ 32) :
    ((v.toUInt32.toNat % 2 ^ n : Nat) : Int) = v.toInt % (2 ^ n : Nat) := by
  have value : v.toInt = (v.toUInt32.toNat : Int) ∨ v.toInt = (v.toUInt32.toNat : Int) - 2 ^ 32 := by
    have split : v.toInt = if 2 * v.toBitVec.toNat < 2 ^ 32 then (v.toBitVec.toNat : Int)
        else (v.toBitVec.toNat : Int) - (2 ^ 32 : Nat) := BitVec.toInt_eq_toNat_cond v.toBitVec
    rw [Int32.toNat_toBitVec] at split
    split at split <;> simp_all
  have divides : ((2 ^ n : Nat) : Int) ∣ 2 ^ 32 := by
    exact_mod_cast Nat.pow_dvd_pow 2 narrow
  rcases value with value | value
  · rw [value, Int.natCast_emod]
  · rw [value, Int.natCast_emod, Int.sub_emod, Int.emod_eq_zero_of_dvd divides, Int.sub_zero,
      Int.emod_emod]

/-- A signed value in the range of a split field is read back unchanged. -/
theorem getSigned_setSigned (proper : s.Proper) (v : Int32) (w : Word) (fits : s.fitsSigned v = true) :
    s.getSigned (s.setSigned v w) = v := by
  simp only [fitsSigned, Bool.and_eq_true, decide_eq_true_eq] at fits
  obtain ⟨⟨⟨positive, narrow⟩, above⟩, below⟩ := fits
  have stored : (s.get (s.setSigned v w)).toNat = v.toUInt32.toNat % 2 ^ s.width :=
    get_set_toNat proper _ w
  have double : ((2 ^ s.width : Nat) : Int) = 2 * (2 ^ (s.width - 1) : Nat) := by
    have next : s.width = s.width - 1 + 1 := by omega
    rw [next, Nat.pow_succ]
    simp only [Nat.add_sub_cancel]
    omega
  have half : (0 : Int) < (2 ^ (s.width - 1) : Nat) := by
    exact_mod_cast Nat.two_pow_pos _
  simp only [getSigned, positive, narrow, and_self, ↓reduceIte, stored, toUInt32_emod v narrow, Nat.pow_eq]
  simp only [Nat.pow_eq] at above below
  by_cases negative : v.toInt < 0
  · have wrapped : v.toInt % (2 ^ s.width : Nat) = v.toInt + (2 ^ s.width : Nat) := by
      rw [← Int.add_emod_right, Int.emod_eq_of_lt (by omega) (by omega)]
    rw [wrapped, if_neg (by omega), Int.add_sub_cancel, Int32.ofInt_toInt]
  · rw [Int.emod_eq_of_lt (by omega) (by omega), if_pos below, Int32.ofInt_toInt]

/-- What is read from a split field is in its range. -/
theorem fitsSigned_getSigned (proper : s.Proper) (w : Word) : s.fitsSigned (s.getSigned w) = true := by
  have below := get_lt proper w
  obtain ⟨properLow, -, narrow⟩ := proper
  have positive : 1 ≤ s.width := by
    have ends := properLow.width_eq
    unfold width
    omega
  have double : 2 ^ s.width = 2 * 2 ^ (s.width - 1) := by
    rw [← Nat.pow_succ', Nat.succ_eq_add_one, Nat.sub_add_cancel positive]
  have bounded : 2 ^ (s.width - 1) ≤ 2 ^ 31 := Nat.pow_le_pow_right (by decide) (by omega)
  simp only [fitsSigned, getSigned, positive, narrow, and_self, ↓reduceIte, decide_true, Bool.true_and,
    Bool.and_eq_true, decide_eq_true_eq, Nat.pow_eq]
  split
  · rename_i small
    rw [Int32.toInt_ofInt_of_le (by omega) (by omega)]
    omega
  · rename_i large
    rw [Int32.toInt_ofInt_of_le (by omega) (by omega)]
    omega

/-- A signed value is read back exactly if it is in the range of the split field. -/
theorem getSigned_setSigned_iff (proper : s.Proper) (v : Int32) (w : Word) :
    s.getSigned (s.setSigned v w) = v ↔ s.fitsSigned v = true := by
  constructor
  · intro same
    rw [← same]
    exact fitsSigned_getSigned proper _
  · exact getSigned_setSigned proper v w

end SplitField

/-- Fields within one half of a word and split fields of up to 32 bits obey the laws of storage: what was stored is
read back, cut to the field; only the field's bits change; storing what is there changes nothing; stores to fields
without a common bit do not notice each other. Of signed values exactly those in range come back. -/
theorem fieldAccess_laws :
    (∀ f : Field, f.Proper → ∀ (v : UInt32) (w : Word),
      (f.get (f.set v w)).toNat = v.toNat % 2 ^ f.width ∧
      (∀ i < 128, ¬ (f.lo ≤ i ∧ i ≤ f.hi) → (f.set v w).bit i = w.bit i) ∧
      f.set (f.get w) w = w ∧
      ∀ g : Field, f.Apart g → ∀ u : UInt32,
        f.set v (g.set u w) = g.set u (f.set v w) ∧ f.get (g.set u w) = f.get w ∧ g.get (f.set v w) = g.get w) ∧
    ∀ s : SplitField, s.Proper → ∀ (v : Int32) (w : Word),
      s.getSigned (s.setSigned v w) = v ↔ s.fitsSigned v = true := by
  refine ⟨fun f proper v w => ⟨Field.get_set_toNat proper v w, fun i below outside => ?_, Field.set_get proper w,
    fun g apart u => ⟨Field.set_comm apart u v w, Field.get_set_of_apart apart u w, ?_⟩⟩, fun s proper v w => ?_⟩
  · rw [Field.bit_set proper v w i below, if_neg outside]
  · exact Field.get_set_of_apart ⟨apart.2.1, apart.1, apart.2.2.symm⟩ v w
  · exact SplitField.getSigned_setSigned_iff proper v w

/-- A field across two dwords keeps the low three bits of thirteen, and a field whose sign bit lies below the others
gives the least number of ten bits back. -/
theorem fieldAccess_laws_crossing :
    Field.Proper ⟨96, 94⟩ ∧ Field.Apart ⟨96, 94⟩ ⟨31, 31⟩ ∧ SplitField.Proper ⟨⟨56, 48⟩, ⟨47, 47⟩⟩ ∧
    ∀ w : Word, (Field.get ⟨96, 94⟩ (Field.set ⟨96, 94⟩ 13 w)).toNat = 5 ∧
      Field.get ⟨31, 31⟩ (Field.set ⟨96, 94⟩ 13 w) = Field.get ⟨31, 31⟩ w ∧
      SplitField.getSigned ⟨⟨56, 48⟩, ⟨47, 47⟩⟩ (SplitField.setSigned ⟨⟨56, 48⟩, ⟨47, 47⟩⟩ (-512) w) = -512 := by
  have proper : Field.Proper ⟨96, 94⟩ := by decide
  have apart : Field.Apart ⟨96, 94⟩ ⟨31, 31⟩ := by decide
  have split : SplitField.Proper ⟨⟨56, 48⟩, ⟨47, 47⟩⟩ := by decide
  refine ⟨proper, apart, split, fun w => ?_⟩
  obtain ⟨stored, -, -, others⟩ := fieldAccess_laws.1 _ proper 13 w
  exact ⟨stored, (others _ apart 0).2.2, (fieldAccess_laws.2 _ split (-512) w).mpr (by decide)⟩

end GpuCodegen.Native
