import GpuCodegen.Lowering.Program
import GpuCodegen.Proofs.BitFields

/-! Stored programs read back. Half a word is the number whose bits are those of its eight bytes, least
significant first (`testBit_halfOfBytes`); so taking a half apart and putting it together undo each other.
Words and whole programs follow by their lengths. -/

namespace GpuCodegen.StoredPrograms
open Native

/-- The four bytes of a dword, least significant first. -/
def littleEndian (d : UInt32) : List UInt8 :=
  [0, 8, 16, 24].map fun n => (d >>> UInt32.ofNat n).toUInt8

/-! ## Halves -/

theorem testBit_beyond_byte (b : UInt8) {i : Nat} (beyond : 8 ≤ i) : b.toNat.testBit i = false :=
  Nat.testBit_lt_two_pow (Nat.lt_of_lt_of_le b.toNat_lt (Nat.pow_le_pow_right (by decide) beyond))

/-- Bit `i` of a half is bit `i % 8` of byte `i / 8`. -/
theorem testBit_halfOfBytes (stored : List UInt8) {i : Nat} (inside : i < 64) :
    (halfOfBytes stored).toNat.testBit i = ((stored[i / 8]?).getD 0).toNat.testBit (i % 8) := by
  induction stored generalizing i with
  | nil => simp [halfOfBytes]
  | cons b rest ih =>
    have split : halfOfBytes (b :: rest) = (halfOfBytes rest <<< 8) ||| b.toUInt64 := rfl
    have shift : (8 : UInt64).toNat % 64 = 8 := rfl
    rw [split, UInt64.toNat_or, Nat.testBit_or, UInt64.toNat_shiftLeft, UInt8.toNat_toUInt64, shift,
      Nat.testBit_mod_two_pow, Nat.testBit_shiftLeft, decide_eq_true inside, Bool.true_and]
    by_cases first : i < 8
    · rw [decide_eq_false (Nat.not_le.mpr first), Bool.false_and, Bool.false_or, Nat.mod_eq_of_lt first,
        Nat.div_eq_of_lt first]
      rfl
    · have next : i / 8 = (i - 8) / 8 + 1 := by omega
      have place : i % 8 = (i - 8) % 8 := by omega
      rw [decide_eq_true (Nat.not_lt.mp first), Bool.true_and, testBit_beyond_byte b (Nat.not_lt.mp first),
        Bool.or_false, ih (by omega), next, place]
      rfl

theorem halfBytes_length (h : UInt64) : (halfBytes h).length = 8 := by
  rw [halfBytes, List.length_map, List.length_range]

/-- Byte `i` of a half holds its bits from `8 * i` on. -/
theorem testBit_halfBytes (h : UInt64) {i j : Nat} (byte : i < 8) (bit : j < 8) :
    (((halfBytes h)[i]?).getD 0).toNat.testBit j = h.toNat.testBit (8 * i + j) := by
  have shift : (UInt64.ofNat (8 * i)).toNat % 64 = 8 * i := by
    rw [UInt64.toNat_ofNat']
    omega
  have moved : (halfBytes h)[i]? = some (h >>> UInt64.ofNat (8 * i)).toUInt8 := by
    rw [halfBytes, List.getElem?_map, List.getElem?_range byte]
    rfl
  rw [moved, Option.getD_some, UInt64.toNat_toUInt8, Nat.testBit_mod_two_pow, UInt64.toNat_shiftRight, shift,
    Nat.testBit_shiftRight, decide_eq_true bit, Bool.true_and]

theorem halfOfBytes_halfBytes (h : UInt64) : halfOfBytes (halfBytes h) = h := by
  refine half_ext fun i inside => ?_
  have place : 8 * (i / 8) + i % 8 = i := Nat.div_add_mod i 8
  rw [testBit_halfOfBytes _ inside, testBit_halfBytes h (by omega) (by omega), place]

theorem halfBytes_halfOfBytes {stored : List UInt8} (eight : stored.length = 8) :
    halfBytes (halfOfBytes stored) = stored := by
  have same (i : Nat) (byte : i < 8) :
      ((halfBytes (halfOfBytes stored))[i]?).getD 0 = (stored[i]?).getD 0 := by
    apply UInt8.toNat_inj.mp
    apply Nat.eq_of_testBit_eq
    intro j
    by_cases bit : j < 8
    · have here : (8 * i + j) / 8 = i := by omega
      have place : (8 * i + j) % 8 = j := by omega
      rw [testBit_halfBytes _ byte bit, testBit_halfOfBytes _ (by omega), here, place]
    · rw [testBit_beyond_byte _ (Nat.not_lt.mp bit), testBit_beyond_byte _ (Nat.not_lt.mp bit)]
  apply List.ext_getElem
  · rw [halfBytes_length, eight]
  · intro i first second
    have equal := same i (eight ▸ second)
    rwa [List.getElem?_eq_getElem first, List.getElem?_eq_getElem second, Option.getD_some, Option.getD_some]
      at equal

/-! ## Words -/

theorem bytes_length (w : Word) : w.bytes.length = wordSize := by
  rw [Word.bytes, List.length_append, halfBytes_length, halfBytes_length]
  rfl

/-- A byte of a half is a byte of one of its dwords. -/
theorem byte_of_dword (h : UInt64) {base n : Nat} (within : n ≤ 24) (below : base ≤ 32) :
    ((h >>> UInt64.ofNat base).toUInt32 >>> UInt32.ofNat n).toUInt8 = (h >>> UInt64.ofNat (base + n)).toUInt8 := by
  apply UInt8.toNat_inj.mp
  apply Nat.eq_of_testBit_eq
  intro j
  have first : (UInt64.ofNat base).toNat % 64 = base := by
    rw [UInt64.toNat_ofNat']
    omega
  have second : (UInt32.ofNat n).toNat % 32 = n := by
    rw [UInt32.toNat_ofNat']
    omega
  have both : (UInt64.ofNat (base + n)).toNat % 64 = base + n := by
    rw [UInt64.toNat_ofNat']
    omega
  simp only [UInt32.toNat_toUInt8, UInt64.toNat_toUInt8, UInt32.toNat_shiftRight, UInt64.toNat_shiftRight,
    UInt64.toNat_toUInt32, first, second, both, Nat.testBit_mod_two_pow, Nat.testBit_shiftRight, Nat.add_assoc]
  by_cases bit : j < 8
  · rw [decide_eq_true (by omega : n + j < 32), Bool.true_and]
  · rw [decide_eq_false bit, Bool.false_and, Bool.false_and]

theorem halfBytes_dwords (h : UInt64) :
    halfBytes h = littleEndian h.toUInt32 ++ littleEndian (h >>> 32).toUInt32 := by
  have apart : halfBytes h =
      ([0, 8, 16, 24].map fun n => (h >>> UInt64.ofNat (0 + n)).toUInt8) ++
      [0, 8, 16, 24].map fun n => (h >>> UInt64.ofNat (32 + n)).toUInt8 := rfl
  have dword (base : Nat) (below : base ≤ 32) :
      ([0, 8, 16, 24].map fun n => (h >>> UInt64.ofNat (base + n)).toUInt8) =
        littleEndian (h >>> UInt64.ofNat base).toUInt32 := by
    refine List.map_congr_left fun n listed => (byte_of_dword h ?_ below).symm
    revert n
    decide
  have unmoved : h >>> UInt64.ofNat 0 = h := UInt64.shiftRight_zero
  have upper : UInt64.ofNat 32 = 32 := rfl
  rw [apart, dword 0 (Nat.zero_le _), dword 32 (Nat.le_refl _), unmoved, upper]

/-- The stored form has the dwords in order, each with its least significant byte first. -/
theorem bytes_littleEndian (w : Word) : w.bytes = w.dwords.flatMap littleEndian := by
  rw [Word.bytes, halfBytes_dwords, halfBytes_dwords, List.append_assoc]
  rfl

/-- The word in front of some bytes is the one whose bytes they are. -/
theorem takeWords_bytes (w : Word) (rest : List UInt8) (count : Nat) :
    Word.takeWords (count + 1) (w.bytes ++ rest) = w :: Word.takeWords count rest := by
  have low : (w.bytes ++ rest).take 8 = halfBytes w.low := by
    rw [Word.bytes, List.append_assoc, List.take_left' (halfBytes_length _)]
  have high : ((w.bytes ++ rest).drop 8).take 8 = halfBytes w.high := by
    rw [Word.bytes, List.append_assoc, List.drop_left' (halfBytes_length _), List.take_left' (halfBytes_length _)]
  rw [Word.takeWords, low, high, halfOfBytes_halfBytes, halfOfBytes_halfBytes, List.drop_left' (bytes_length w)]

theorem bytes_taken {stored : List UInt8} (whole : wordSize ≤ stored.length) :
    Word.bytes ⟨halfOfBytes (stored.take 8), halfOfBytes ((stored.drop 8).take 8)⟩ = stored.take wordSize := by
  have sixteen : wordSize = 8 + 8 := rfl
  have low : (stored.take 8).length = 8 := by
    rw [List.length_take]
    omega
  have high : ((stored.drop 8).take 8).length = 8 := by
    rw [List.length_take, List.length_drop]
    omega
  rw [Word.bytes, halfBytes_halfOfBytes low, halfBytes_halfOfBytes high, sixteen, List.take_add]

/-! ## Programs -/

theorem listBytes_length (words : List Word) : (Word.listBytes words).length = wordSize * words.length := by
  induction words with
  | nil => rfl
  | cons w words ih =>
    have split : Word.listBytes (w :: words) = w.bytes ++ Word.listBytes words := List.flatMap_cons
    rw [split, List.length_append, bytes_length, ih, List.length_cons, Nat.mul_succ, Nat.add_comm]

theorem takeWords_listBytes (words : List Word) : Word.takeWords words.length (Word.listBytes words) = words := by
  induction words with
  | nil => rfl
  | cons w words ih =>
    have split : Word.listBytes (w :: words) = w.bytes ++ Word.listBytes words := List.flatMap_cons
    rw [split, List.length_cons, takeWords_bytes, ih]

theorem listBytes_takeWords {count : Nat} {stored : List UInt8} (whole : stored.length = wordSize * count) :
    Word.listBytes (Word.takeWords count stored) = stored := by
  induction count generalizing stored with
  | zero => exact (List.eq_nil_of_length_eq_zero whole).symm
  | succ count ih =>
    have rest : (stored.drop wordSize).length = wordSize * count := by
      rw [List.length_drop, whole, Nat.mul_succ, Nat.add_sub_cancel]
    have first : wordSize ≤ stored.length := by
      rw [whole, Nat.mul_succ]
      exact Nat.le_add_left _ _
    rw [Word.takeWords, Word.listBytes, List.flatMap_cons, bytes_taken first]
    have tail := ih rest
    rw [Word.listBytes] at tail
    rw [tail, List.take_append_drop]

theorem listOfBytes_listBytes (words : List Word) : Word.listOfBytes (Word.listBytes words) = .ok words := by
  have whole := listBytes_length words
  have count : wordSize * words.length / wordSize = words.length := Nat.mul_div_cancel_left _ (by decide)
  rw [Word.listOfBytes, whole, if_neg (not_not_intro (Nat.mul_mod_right _ _)), count, takeWords_listBytes]

/-- Reading fails exactly for programs that are not made of whole words. -/
theorem listOfBytes_error {stored : List UInt8} {e : StorageError} :
    Word.listOfBytes stored = .error e ↔ ¬ wordSize ∣ stored.length ∧ e = .ragged stored.length := by
  rw [Word.listOfBytes, Nat.dvd_iff_mod_eq_zero]
  split
  · rename_i ragged
    rw [Except.error.injEq, eq_comm]
    exact (and_iff_right ragged).symm
  · rename_i whole
    constructor
    · rintro ⟨⟩
    · rintro ⟨ragged, -⟩
      exact absurd ragged whole

theorem listBytes_listOfBytes {stored : List UInt8} {words : List Word}
    (read : Word.listOfBytes stored = .ok words) : Word.listBytes words = stored := by
  unfold Word.listOfBytes at read
  split at read
  · cases read
  · rename_i whole
    cases read
    have exact : wordSize * (stored.length / wordSize) = stored.length :=
      Nat.mul_div_cancel' (Nat.dvd_of_mod_eq_zero (Decidable.not_not.mp whole))
    exact listBytes_takeWords exact.symm

/-- A program is stored as sixteen bytes for each word, the dwords of the words in order and each of them with its
least significant byte first, and the words are read back from them. Bytes are refused exactly when they are not
whole words, and a program's words are read from no other bytes than those that it is stored as. -/
theorem program_roundTrip :
    (∀ p : Program, p.bytes.length = 16 * p.words.length ∧
      p.bytes = p.words.flatMap (fun w => w.dwords.flatMap littleEndian) ∧
      Word.listOfBytes p.bytes = .ok p.words) ∧
    ∀ stored : List UInt8,
      (∀ e, Word.listOfBytes stored = .error e ↔ ¬ 16 ∣ stored.length ∧ e = .ragged stored.length) ∧
      ∀ p : Program, Word.listOfBytes stored = .ok p.words ↔ p.bytes = stored := by
  refine ⟨fun p => ⟨listBytes_length p.words, ?_, listOfBytes_listBytes p.words⟩,
    fun stored => ⟨fun e => listOfBytes_error, fun p => ?_⟩⟩
  · have each : Word.bytes = fun w => w.dwords.flatMap littleEndian := funext bytes_littleEndian
    rw [Program.bytes, Word.listBytes, each]
  · constructor
    · exact listBytes_listOfBytes
    · rintro rfl
      exact listOfBytes_listBytes p.words

end GpuCodegen.StoredPrograms
