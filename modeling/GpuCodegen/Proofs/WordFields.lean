import GpuCodegen.Assembler.Message
import GpuCodegen.Proofs.BitFields
import GpuCodegen.Proofs.Outcome

/-! The parts of an instruction word. A word is put together by storing into fields one after another,
and the fields of different operands overlap between addressing modes, immediates and messages. Each
part is therefore treated in two steps: what it reads back from its own fields, and which fields its
stores leave alone. -/

namespace GpuCodegen.WordRoundTrip
open Native Native.Layout Generation Outcome

/-! ## Fields a word's parts are made of -/

/-- A store into `g` is not seen by `f`: one of them is missing, or they share no bit. -/
def Clear (f g : Field) : Prop := f.present = false ∨ g.present = false ∨ f.Apart g

instance (f g : Field) : Decidable (Clear f g) :=
  inferInstanceAs (Decidable (f.present = false ∨ g.present = false ∨ f.Apart g))

theorem Clear.symm {f g : Field} (clear : Clear f g) : Clear g f := by
  rcases clear with missing | missing | ⟨properF, properG, apart⟩
  · exact .inr (.inl missing)
  · exact .inl missing
  · exact .inr (.inr ⟨properG, properF, apart.symm⟩)

theorem get_set_clear {f g : Field} (clear : Clear f g) (v : UInt32) (w : Word) :
    f.get (g.set v w) = f.get w := by
  rcases clear with missing | missing | apart
  · rw [Field.get_not_present missing, Field.get_not_present missing]
  · rw [Field.set_not_present missing]
  · exact Field.get_set_of_apart apart v w

/-- The second word comes from the first by stores into some of the fields. -/
inductive Stored (fields : List Field) (w : Word) : Word → Prop where
  | same : Stored fields w w
  | store {f : Field} {w' : Word} (v : UInt32) (member : f ∈ fields) (before : Stored fields w w') :
      Stored fields w (f.set v w')

theorem get_stored {fields : List Field} {w w' : Word} {f : Field} (stored : Stored fields w w')
    (clear : ∀ g ∈ fields, Clear f g) : f.get w' = f.get w := by
  induction stored with
  | same => rfl
  | store v member before ih =>
    rw [get_set_clear (clear _ member), ih]

/-- The fields every word's header is read from. -/
def headerFields (l : Layout) : List Field :=
  [l.header.opcode, l.header.execSize, l.header.accessMode, l.header.quarterControl,
    l.header.maskControl, l.header.predControl, l.header.predInvert, l.header.flagReg,
    l.header.flagSubreg, l.header.condition, l.header.saturate]

/-- The fields of a destination, in both addressing modes. -/
def destinationFields (l : Layout) : List Field :=
  [l.dst.file, l.dst.type, l.dst.horizontal, l.dst.addressMode, l.dst.addressEntry,
    l.dst.indirect.low, l.dst.indirect.high, l.dst.number, l.dst.sub]

/-- The fields of a register as first source, in both addressing modes. -/
def source0Fields (l : Layout) : List Field :=
  [l.src0.file, l.src0.type, l.src0.abs, l.src0.neg, l.src0.addressMode, l.src0AddressEntry,
    l.src0Indirect.low, l.src0Indirect.high, l.src0.number, l.src0.sub, l.src0.vertical,
    l.src0.width, l.src0.horizontal]

/-- The fields an immediate first source adds. -/
def immediateFields (l : Layout) : List Field :=
  [l.imm64Low, l.imm32, l.src1.file, l.src1.type]

/-- The fields of a second source, register or immediate. -/
def source1Fields (l : Layout) : List Field :=
  [l.src1.file, l.src1.type, l.src1.abs, l.src1.neg, l.src1.number, l.src1.sub, l.src1.vertical,
    l.src1.width, l.src1.horizontal, l.imm32]

/-- The fields of a message descriptor, apart from the header's. -/
def descriptorFields (l : Layout) : List Field :=
  [l.src1.file, l.src1.type, l.imm32, l.descriptor.function, l.descriptor.header,
    l.descriptor.responseLength, l.descriptor.messageLength, l.descriptor.endOfThread]

theorem layout_cases (g : Generation) : g.layout = .gen7 ∨ g.layout = .gen8 := by
  unfold Generation.layout ofGeneration
  split
  · exact .inr rfl
  · exact .inl rfl

/-- No store into one part of a word is seen by a part read from the other list. -/
def AllClear (fs gs : List Field) : Prop := ∀ f ∈ fs, ∀ g ∈ gs, Clear f g

instance (fs gs : List Field) : Decidable (AllClear fs gs) :=
  inferInstanceAs (Decidable (∀ f ∈ fs, ∀ g ∈ gs, Clear f g))

theorem header_clear (g : Generation) : AllClear (headerFields g.layout)
    (destinationFields g.layout ++ source0Fields g.layout ++ immediateFields g.layout ++
      source1Fields g.layout) := by
  rcases layout_cases g with family | family <;> rw [family] <;> decide

theorem destination_clear (g : Generation) : AllClear (destinationFields g.layout)
    (source0Fields g.layout ++ immediateFields g.layout ++ source1Fields g.layout ++
      g.layout.header.condition :: descriptorFields g.layout) := by
  rcases layout_cases g with family | family <;> rw [family] <;> decide

theorem source0_clear (g : Generation) : AllClear (source0Fields g.layout)
    (headerFields g.layout ++ destinationFields g.layout ++ source1Fields g.layout ++
      descriptorFields g.layout) := by
  rcases layout_cases g with family | family <;> rw [family] <;> decide

/-! ## Types and register files -/

theorem typeOf_codeOf {codes : List (DataType × UInt32)} {t : DataType} {code : UInt32}
    (distinct : codes.Pairwise fun a b => a.2 ≠ b.2) (known : codeOf? codes t = some code) :
    typeOf? codes code = some t ∧ (t, code) ∈ codes := by
  induction codes with
  | nil => simp [codeOf?] at known
  | cons head rest ih =>
    obtain ⟨apart, distinctRest⟩ := List.pairwise_cons.mp distinct
    by_cases here : head.1 = t
    · have same : head.2 = code := by simpa [codeOf?, here] using known
      subst here same
      simp [typeOf?]
    · have later : codeOf? rest t = some code := by simpa [codeOf?, here] using known
      obtain ⟨found, member⟩ := ih distinctRest later
      have other : ¬ head.2 = code := apart _ member
      exact ⟨by simpa [typeOf?, other] using found, List.mem_cons_of_mem _ member⟩

/-- The parts of an operand that encoding does not check fit their fields; `entry` is the field for an
address register entry. -/
structure Fits (entry : Field) (r : Register) : Prop where
  file : r.file.code.toNat < 4
  listed : RegFile.ofCode r.file.code = r.file
  place : r.file = .arf → r.number.toNat < 256 ∧ r.sub.toNat < 32
  address : ∀ a, r.indirect = some a → a.entry.toNat < 2 ^ entry.width
  vertical : r.region.vertical.toNat < 16
  width : r.region.width.toNat < 8
  horizontal : r.region.horizontal.toNat < 4

/-- What decoding gives for a destination. -/
def readDestination (r : Register) : Register where
  file := r.file
  type := r.type
  region := ⟨0, 0, destinationStride r⟩
  number := if r.indirect.isSome then 0 else r.number
  sub := if r.indirect.isSome then 0 else r.sub
  indirect := r.indirect

theorem Stored.mono {fs gs : List Field} {w w' : Word} (stored : Stored fs w w')
    (included : ∀ f ∈ fs, f ∈ gs) : Stored gs w w' := by
  induction stored with
  | same => exact .same
  | store v member before ih => exact .store v (included _ member) ih

theorem Stored.trans {fields : List Field} {w w' w'' : Word} (first : Stored fields w w')
    (second : Stored fields w' w'') : Stored fields w w'' := by
  induction second with
  | same => exact first
  | store v member before ih => exact .store v member ih

theorem place_fits {entry : Field} {r : Register} {role : Role} {u : Unit} (fits : Fits entry r)
    (direct : r.indirect = none) (checked : checkRegister role r = .ok u) :
    r.number.toNat < 256 ∧ r.sub.toNat < 32 := by
  unfold checkRegister at checked
  by_cases arf : r.file = .arf
  · exact fits.place arf
  · simp only [arf, direct, Option.isSome_none, Bool.false_eq_true, or_self, ↓reduceIte] at checked
    split at checked
    · cases checked
    · split at checked
      · cases checked
      · rename_i numberSmall subSmall
        simp only [UInt32.not_le, UInt32.lt_iff_toNat_lt] at numberSmall subSmall
        change r.number.toNat < 128 at numberSmall
        exact ⟨by omega, subSmall⟩

theorem registerTypeCode_ok {g : Generation} {t : DataType} {code : UInt32}
    (known : g.registerTypeCode t = .ok code) :
    typeOf? g.layout.registerTypes code = some t ∧ code.toNat < 2 ^ g.layout.dst.type.width ∧
      code.toNat < 2 ^ g.layout.src0.type.width ∧ code.toNat < 2 ^ g.layout.src1.type.width := by
  simp only [registerTypeCode, bind_ok] at known
  obtain ⟨_, _, known⟩ := known
  cases found : codeOf? g.layout.registerTypes t with
  | none => simp [found, throw_ok] at known
  | some c =>
    simp only [found, pure_ok] at known
    subst known
    have distinct : g.layout.registerTypes.Pairwise fun a b => a.2 ≠ b.2 := by
      rcases layout_cases g with family | family <;> rw [family] <;> decide
    have narrow : ∀ entry ∈ g.layout.registerTypes, entry.2.toNat < 2 ^ g.layout.dst.type.width ∧
        entry.2.toNat < 2 ^ g.layout.src0.type.width ∧ entry.2.toNat < 2 ^ g.layout.src1.type.width := by
      rcases layout_cases g with family | family <;> rw [family] <;> decide
    obtain ⟨type, member⟩ := typeOf_codeOf distinct found
    exact ⟨type, narrow _ member⟩

theorem destinationStride_lt {entry : Field} {r : Register} (fits : Fits entry r) :
    (destinationStride r).toUInt32.toNat < 4 := by
  unfold destinationStride naturalStride
  have horizontal := fits.horizontal
  split
  · split
    · decide
    · split <;> decide
  · simpa using horizontal

/-- A value below the number of values of a field is read back unchanged. -/
theorem get_set_lt (n : Nat) {f : Field} {v : UInt32} (range : f.Proper ∧ 2 ^ f.width = n)
    (small : v.toNat < n) (w : Word) : f.get (f.set v w) = v :=
  Field.get_set range.1 v w (by rw [range.2]; exact small)

/-- A destination is read back from its own fields, in a word that had none before. -/
theorem decodeDst_setDestination {g : Generation} {r : Register} {w w' : Word}
    (fits : Fits g.layout.dst.addressEntry r) (fresh : g.layout.dst.addressMode.get w = 0)
    (encoded : g.setDestination r w = .ok w') : g.layout.decodeDst w' = .ok (readDestination r) := by
  simp only [setDestination, refuse_ok, bind_ok] at encoded
  obtain ⟨_, _, checked, code, known, encoded⟩ := encoded
  obtain ⟨type, codeFits, -⟩ := registerTypeCode_ok known
  have stride := destinationStride_lt fits
  have file : r.file.code.toUInt32.toNat < 4 := by simpa using fits.file
  cases address : r.indirect with
  | none =>
    obtain ⟨number, sub⟩ := place_fits fits address checked
    simp only [address, pure_ok] at encoded
    subst encoded
    rcases layout_cases g with family | family <;> rw [family] at fresh type codeFits ⊢ <;>
      simp (disch := first | decide | assumption) [decodeDst, fileAt, get_set_clear, Field.get_set,
        get_set_lt 4, get_set_lt 32, get_set_lt 256, type, Field.isOne, fresh, fits.listed,
        readDestination, address]
  | some a =>
    simp only [address, accept_ok, pure_ok] at encoded
    obtain ⟨offset, encoded⟩ := encoded
    have entry := fits.address a address
    subst encoded
    rcases layout_cases g with family | family <;> rw [family] at fresh type codeFits entry offset ⊢ <;>
      simp (disch := first | decide | assumption) [decodeDst, fileAt, get_set_clear, Field.get_set,
        SplitField.get_setSigned_of_apart, SplitField.getSigned_setSigned,
        get_set_lt 4, type, Field.isOne, fits.listed, readDestination, address]

theorem setDestination_stored {g : Generation} {r : Register} {w w' : Word}
    (encoded : g.setDestination r w = .ok w') : Stored (destinationFields g.layout) w w' := by
  simp only [setDestination, refuse_ok, bind_ok] at encoded
  obtain ⟨_, _, _, code, _, encoded⟩ := encoded
  cases address : r.indirect with
  | none =>
    simp only [address, pure_ok] at encoded
    subst encoded
    repeat' first | exact .same | refine .store _ (by simp [destinationFields]) ?_
  | some a =>
    simp only [address, accept_ok, pure_ok] at encoded
    obtain ⟨_, encoded⟩ := encoded
    subst encoded
    unfold SplitField.setSigned SplitField.set
    repeat' first | exact .same | refine .store _ (by simp [destinationFields]) ?_

/-- What decoding gives for a source: an immediate's low dword, or all of it for a 64-bit type, and
everything else with the region it is written with. -/
def readSource (s : State) (r : Register) : Register :=
  if r.file = .imm then
    .imm r.type (if r.type.is64 then r.immediate else r.immediate.toUInt32.toUInt64)
  else
    { file := r.file
      type := r.type
      negate := r.negate
      absolute := r.absolute
      region := if r.indirect.isSome then r.region else sourceRegion s r
      number := if r.indirect.isSome then 0 else r.number
      sub := if r.indirect.isSome then 0 else r.sub
      indirect := r.indirect }

theorem immediateTypeCode_ok {g : Generation} {t : DataType} {code : UInt32}
    (known : g.immediateTypeCode t = .ok code) :
    typeOf? g.layout.immediateTypes code = some t ∧ code.toNat < 2 ^ g.layout.src0.type.width ∧
      code.toNat < 2 ^ g.layout.src1.type.width ∧ (t.is64 = true → g.layout = .gen8) := by
  unfold immediateTypeCode at known
  split at known
  · rename_i c found
    cases known
    have distinct : g.layout.immediateTypes.Pairwise fun a b => a.2 ≠ b.2 := by
      rcases layout_cases g with family | family <;> rw [family] <;> decide
    have narrow : ∀ entry ∈ g.layout.immediateTypes, entry.2.toNat < 2 ^ g.layout.src0.type.width ∧
        entry.2.toNat < 2 ^ g.layout.src1.type.width := by
      rcases layout_cases g with family | family <;> rw [family] <;> decide
    obtain ⟨type, member⟩ := typeOf_codeOf distinct found
    refine ⟨type, (narrow _ member).1, (narrow _ member).2, ?_⟩
    intro wide
    rcases layout_cases g with family | family
    · have short : ∀ entry ∈ Layout.gen7.immediateTypes, entry.1.is64 = false := by decide
      rw [family] at member
      simp [short _ member] at wide
    · exact family
  · cases known

theorem sourceRegion_fits {entry : Field} {s : State} {r : Register} (fits : Fits entry r) :
    (sourceRegion s r).vertical.toUInt32.toNat < 16 ∧ (sourceRegion s r).width.toUInt32.toNat < 8 ∧
      (sourceRegion s r).horizontal.toUInt32.toNat < 4 := by
  unfold sourceRegion
  split
  · decide
  · exact ⟨by simpa using fits.vertical, by simpa using fits.width, by simpa using fits.horizontal⟩

theorem isOne_setBool {f : Field} (one : f.Proper ∧ f.width = 1) (b : Bool) (w : Word) :
    f.isOne (f.setBool b w) = b := by
  have small : (if b then 1 else 0 : UInt32).toNat < 2 ^ f.width := by
    rw [one.2]
    cases b <;> decide
  rw [Field.isOne, Field.setBool, Field.get_set one.1 _ _ small]
  cases b <;> rfl

theorem isOne_set_clear {f g : Field} (clear : Clear f g) (v : UInt32) (w : Word) :
    f.isOne (g.set v w) = f.isOne w := by
  rw [Field.isOne, get_set_clear clear, Field.isOne]

theorem get_setBool_clear {f g : Field} (clear : Clear f g) (b : Bool) (w : Word) :
    f.get (g.setBool b w) = f.get w :=
  get_set_clear clear _ w

theorem isOne_setBool_clear {f g : Field} (clear : Clear f g) (b : Bool) (w : Word) :
    f.isOne (g.setBool b w) = f.isOne w :=
  isOne_set_clear clear _ w

theorem isOne_setSigned_clear {s : SplitField} {f : Field} (apart : s.ApartFrom f) (v : Int32) (w : Word) :
    f.isOne (s.setSigned v w) = f.isOne w := by
  rw [Field.isOne, SplitField.get_setSigned_of_apart apart, Field.isOne]

theorem isOne_set_one {f : Field} (one : f.Proper ∧ f.width = 1) (w : Word) :
    f.isOne (f.set 1 w) = true :=
  isOne_setBool one true w

theorem getSigned_set_clear {s : SplitField} {f : Field} (clear : Clear s.low f ∧ Clear s.high f)
    (v : UInt32) (w : Word) : s.getSigned (f.set v w) = s.getSigned w := by
  have same : s.get (f.set v w) = s.get w := by
    rw [SplitField.get, get_set_clear clear.1, get_set_clear clear.2, SplitField.get]
  unfold SplitField.getSigned
  rw [same]

/-- A register as first source is read back from its own fields, in a word that had none before. -/
theorem decodeSrc0_register {g : Generation} {s : State} {r : Register} {w w' : Word}
    (fits : Fits g.layout.src0AddressEntry r) (fresh : g.layout.src0.addressMode.isOne w = false)
    (register : r.file ≠ .imm) (encoded : g.setSource0 s r w = .ok w') :
    g.layout.decodeSrc0 w' = .ok (readSource s r) := by
  simp only [setSource0, register, ↓reduceIte, bind_ok] at encoded
  obtain ⟨_, checked, code, known, encoded⟩ := encoded
  obtain ⟨type, -, codeFits, -⟩ := registerTypeCode_ok known
  have file : r.file.code.toUInt32.toNat < 4 := by simpa using fits.file
  cases address : r.indirect with
  | none =>
    obtain ⟨number, sub⟩ := place_fits fits address checked
    obtain ⟨vertical, width, horizontal⟩ := sourceRegion_fits (s := s) fits
    simp only [address, pure_ok] at encoded
    subst encoded
    rcases layout_cases g with family | family <;> rw [family] at fresh type codeFits ⊢ <;>
      simp (disch := first | decide | assumption) [decodeSrc0, decodeSourceShape, fileAt, setSourceShape,
        setRegion, get_set_clear, get_setBool_clear, isOne_set_clear, isOne_setBool_clear,
        isOne_setBool, Field.get_set, get_set_lt 4, get_set_lt 8, get_set_lt 16, get_set_lt 32,
        get_set_lt 256, type, fresh, fits.listed, readSource, address, register]
  | some a =>
    simp only [address, accept_ok, pure_ok] at encoded
    obtain ⟨offset, encoded⟩ := encoded
    have entry := fits.address a address
    have vertical : r.region.vertical.toUInt32.toNat < 16 := by simpa using fits.vertical
    have width : r.region.width.toUInt32.toNat < 8 := by simpa using fits.width
    have horizontal : r.region.horizontal.toUInt32.toNat < 4 := by simpa using fits.horizontal
    subst encoded
    rcases layout_cases g with family | family <;> rw [family] at fresh type codeFits entry offset ⊢ <;>
      simp (disch := first | decide | assumption) [decodeSrc0, decodeSourceShape, fileAt, setSourceShape,
        setRegion, get_set_clear, get_setBool_clear, isOne_set_clear, isOne_setBool_clear,
        isOne_setSigned_clear, isOne_set_one, getSigned_set_clear,
        SplitField.get_setSigned_of_apart, SplitField.getSigned_setSigned,
        isOne_setBool, Field.get_set, get_set_lt 4, get_set_lt 8, get_set_lt 16,
        type, fits.listed, readSource, address, register]

theorem setSource0_register_stored {g : Generation} {s : State} {r : Register} {w w' : Word}
    (register : r.file ≠ .imm) (encoded : g.setSource0 s r w = .ok w') :
    Stored (source0Fields g.layout) w w' := by
  simp only [setSource0, register, ↓reduceIte, bind_ok] at encoded
  obtain ⟨_, _, code, _, encoded⟩ := encoded
  cases address : r.indirect with
  | none =>
    simp only [address, pure_ok] at encoded
    subst encoded
    unfold setRegion setSourceShape Field.setBool
    repeat' first | exact .same | refine .store _ (by simp [source0Fields]) ?_
  | some a =>
    simp only [address, accept_ok, pure_ok] at encoded
    obtain ⟨_, encoded⟩ := encoded
    subst encoded
    unfold setRegion SplitField.setSigned SplitField.set setSourceShape Field.setBool
    repeat' first | exact .same | refine .store _ (by simp [source0Fields]) ?_

/-- The two dwords of a 64-bit immediate give it back. -/
theorem join_dwords (v : UInt64) :
    v.toUInt32.toUInt64 ||| ((v >>> 32).toUInt32.toUInt64 <<< 32) = v := by
  apply UInt64.toNat_inj.mp
  apply Nat.eq_of_testBit_eq
  intro i
  have bound := v.toNat_lt
  simp only [UInt64.toNat_or, UInt64.toNat_shiftLeft, UInt32.toNat_toUInt64, UInt64.toNat_toUInt32,
    UInt64.toNat_shiftRight, UInt64.reduceToNat, Nat.reduceMod, Nat.testBit_or, Nat.testBit_mod_two_pow,
    Nat.testBit_shiftLeft, Nat.testBit_shiftRight]
  by_cases low : i < 32
  · simp [low, show ¬ 32 ≤ i by omega]
  · by_cases high : i < 64
    · simp [low, high, show 32 ≤ i by omega, show i - 32 < 32 by omega, show 32 + (i - 32) = i by omega]
    · have beyond : v.toNat.testBit i = false :=
        Nat.testBit_lt_two_pow (Nat.lt_of_lt_of_le bound (Nat.pow_le_pow_right (by omega) (by omega)))
      simp [low, high, beyond]

/-- An immediate first source is read back. -/
theorem decodeSrc0_immediate {g : Generation} {s : State} {r : Register} {w w' : Word}
    (immediate : r.file = .imm) (encoded : g.setSource0 s r w = .ok w') :
    g.layout.decodeSrc0 w' = .ok (readSource s r) := by
  simp only [setSource0, immediate, ↓reduceIte, setImmediate, bind_ok] at encoded
  obtain ⟨_, _, code, known, encoded⟩ := encoded
  obtain ⟨type, codeFits, -, wide⟩ := immediateTypeCode_ok known
  have file : RegFile.imm.code.toUInt32.toNat < 4 := by decide
  have low : r.immediate.toUInt32.toNat < 4294967296 := r.immediate.toUInt32.toNat_lt
  have high : (r.immediate >>> 32).toUInt32.toNat < 4294967296 :=
    (r.immediate >>> 32).toUInt32.toNat_lt
  by_cases is64 : r.type.is64 = true
  · simp only [is64, ↓reduceIte, pure_ok] at encoded
    have family := wide is64
    rw [family] at type codeFits encoded ⊢
    have fileAtImm : fileAt Layout.gen8.src0.file w' = .imm := by
      subst encoded
      simp (disch := first | decide | assumption) only [fileAt, get_set_clear, get_set_lt 4]
      rfl
    have typeAt : Layout.gen8.src0.type.get w' = code := by
      subst encoded
      simp (disch := first | decide | assumption) only [get_set_clear, Field.get_set]
    have lowAt : Layout.gen8.imm64Low.get w' = r.immediate.toUInt32 := by
      subst encoded
      simp (disch := first | decide | assumption) only [get_set_clear, get_set_lt 4294967296]
    have highAt : Layout.gen8.imm32.get w' = (r.immediate >>> 32).toUInt32 := by
      subst encoded
      simp (disch := first | decide | assumption) only [get_set_lt 4294967296]
    simp only [decodeSrc0, fileAtImm, ↓reduceIte, typeAt, type, is64,
      show Layout.gen8.hasImm64 = true from rfl, Bool.and_self, lowAt, highAt, join_dwords,
      readSource, immediate]
  · simp only [is64, Bool.false_eq_true, ↓reduceIte, pure_ok] at encoded
    have fileAtImm : fileAt g.layout.src0.file w' = .imm := by
      subst encoded
      rcases layout_cases g with family | family <;> rw [family] <;>
        simp (disch := first | decide | assumption) only [fileAt, get_set_clear, get_set_lt 4] <;> rfl
    have typeAt : g.layout.src0.type.get w' = code := by
      subst encoded
      rcases layout_cases g with family | family <;> rw [family] at codeFits ⊢ <;>
        simp (disch := first | decide | assumption) only [get_set_clear, Field.get_set]
    have lowAt : g.layout.imm32.get w' = r.immediate.toUInt32 := by
      subst encoded
      rcases layout_cases g with family | family <;> rw [family] <;>
        simp (disch := first | decide | assumption) only [get_set_clear, get_set_lt 4294967296]
    simp [decodeSrc0, fileAtImm, typeAt, type, is64, lowAt, readSource, immediate]

theorem setSource0_immediate_stored {g : Generation} {s : State} {r : Register} {w w' : Word}
    (immediate : r.file = .imm) (encoded : g.setSource0 s r w = .ok w') :
    Stored (source0Fields g.layout ++ immediateFields g.layout) w w' := by
  simp only [setSource0, immediate, ↓reduceIte, setImmediate, bind_ok] at encoded
  obtain ⟨_, _, code, _, encoded⟩ := encoded
  by_cases is64 : r.type.is64 = true
  · simp only [is64, ↓reduceIte, pure_ok] at encoded
    subst encoded
    repeat' first | exact .same | refine .store _ (by simp [source0Fields, immediateFields]) ?_
  · simp only [is64, Bool.false_eq_true, ↓reduceIte, pure_ok] at encoded
    subst encoded
    repeat' first | exact .same | refine .store _ (by simp [source0Fields, immediateFields]) ?_

/-- A second source is read back from its own fields. -/
theorem decodeSrc1_setSource1 {g : Generation} {s : State} {r : Register} {w w' : Word} {entry : Field}
    (fits : Fits entry r) (encoded : g.setSource1 s r w = .ok w') :
    g.layout.decodeSrc1 w' = .ok (readSource s r) := by
  simp only [setSource1, refuse_ok] at encoded
  obtain ⟨_, encoded⟩ := encoded
  by_cases immediate : r.file = .imm
  · simp only [immediate, ↓reduceIte, refuse_ok, bind_ok, pure_ok] at encoded
    obtain ⟨short, code, known, encoded⟩ := encoded
    obtain ⟨type, -, codeFits, -⟩ := immediateTypeCode_ok known
    have file : RegFile.imm.code.toUInt32.toNat < 4 := by decide
    have low : r.immediate.toUInt32.toNat < 4294967296 := r.immediate.toUInt32.toNat_lt
    have fileAtImm : fileAt g.layout.src1.file w' = .imm := by
      subst encoded
      rcases layout_cases g with family | family <;> rw [family] <;>
        simp (disch := first | decide | assumption) only [fileAt, get_set_clear, get_set_lt 4] <;> rfl
    have typeAt : g.layout.src1.type.get w' = code := by
      subst encoded
      rcases layout_cases g with family | family <;> rw [family] at codeFits ⊢ <;>
        simp (disch := first | decide | assumption) only [get_set_clear, Field.get_set]
    have lowAt : g.layout.imm32.get w' = r.immediate.toUInt32 := by
      subst encoded
      rcases layout_cases g with family | family <;> rw [family] <;>
        simp (disch := first | decide | assumption) only [get_set_lt 4294967296]
    simp [decodeSrc1, fileAtImm, typeAt, type, lowAt, readSource, immediate, short]
  · simp only [immediate, ↓reduceIte, refuse_ok, bind_ok, pure_ok] at encoded
    obtain ⟨direct, _, checked, code, known, encoded⟩ := encoded
    have address : r.indirect = none := by simpa using direct
    obtain ⟨type, -, -, codeFits⟩ := registerTypeCode_ok known
    obtain ⟨number, sub⟩ := place_fits fits address checked
    obtain ⟨vertical, width, horizontal⟩ := sourceRegion_fits (s := s) fits
    have file : r.file.code.toUInt32.toNat < 4 := by simpa using fits.file
    subst encoded
    rcases layout_cases g with family | family <;> rw [family] at type codeFits ⊢ <;>
      simp (disch := first | decide | assumption) [decodeSrc1, decodeSourceShape, fileAt, setSourceShape,
        setRegion, get_set_clear, get_setBool_clear, isOne_set_clear, isOne_setBool_clear,
        isOne_setBool, Field.get_set, get_set_lt 4, get_set_lt 8, get_set_lt 16, get_set_lt 32,
        get_set_lt 256, type, fits.listed, readSource, address, immediate]

theorem setSource1_stored {g : Generation} {s : State} {r : Register} {w w' : Word}
    (encoded : g.setSource1 s r w = .ok w') : Stored (source1Fields g.layout) w w' := by
  simp only [setSource1, refuse_ok] at encoded
  obtain ⟨_, encoded⟩ := encoded
  by_cases immediate : r.file = .imm
  · simp only [immediate, ↓reduceIte, refuse_ok, bind_ok, pure_ok] at encoded
    obtain ⟨_, code, _, encoded⟩ := encoded
    subst encoded
    repeat' first | exact .same | refine .store _ (by simp [source1Fields]) ?_
  · simp only [immediate, ↓reduceIte, refuse_ok, bind_ok, pure_ok] at encoded
    obtain ⟨_, _, _, code, _, encoded⟩ := encoded
    subst encoded
    unfold setRegion setSourceShape Field.setBool
    repeat' first | exact .same | refine .store _ (by simp [source1Fields]) ?_

/-! ## The header -/

theorem isOne_of_get_zero {f : Field} {w : Word} (zero : f.get w = 0) : f.isOne w = false := by
  simp [Field.isOne, zero]

theorem isOne_zero (f : Field) : f.isOne .zero = false := isOne_of_get_zero (Field.get_zero f)

/-- What decoding gives for the header of a word encoded under a state. The inversion of a predicate
is only written with a predicate. -/
def readHeader (s : State) (op : Native.Opcode) : Decoded where
  opcode := op
  execSize := s.execWidth
  accessMode := 0
  quarter := s.quarter
  noMask := s.noMask
  predicate := s.predicate
  predInvert := s.predicate != 0 && s.inversePredicate
  flag := s.flag
  subFlag := s.subFlag
  condition := 0
  saturate := s.saturate
  dst := {}
  writemask := 0
  sources := []
  message := none

/-- The parts of a state that encoding does not check fit their fields. -/
structure StateFits (s : State) : Prop where
  quarter : s.quarter.toNat < 4
  predicate : s.predicate.toNat < 16

/-- The fields a header is stored into, unless it is that of a three-source word. -/
def headerStores (l : Layout) : List Field :=
  [l.header.opcode, l.header.execSize, l.header.accWrite, l.header.quarterControl,
    l.header.nibControl, l.header.maskControl, l.header.flagReg, l.header.flagSubreg,
    l.header.predControl, l.header.predInvert, l.header.saturate]

theorem opcode_listed (op : Native.Opcode) (known : op ∈ Native.Opcode.all) :
    Native.Opcode.ofCode op.code = op ∧ op.code.toUInt32.toNat < 128 := by
  revert op
  decide

theorem checkedFlag_ok {g : Generation} {s : State} {flag : UInt32 × UInt32}
    (checked : g.checkedFlag s = .ok flag) :
    flag = (s.flag, s.subFlag) ∧ s.flag.toNat < 2 ∧ s.subFlag.toNat < 2 := by
  have small {v : UInt32} (least : ¬ 1 < v) : v.toNat < 2 := by
    simp only [UInt32.not_lt, UInt32.le_iff_toNat_le] at least
    change v.toNat ≤ 1 at least
    omega
  unfold checkedFlag at checked
  split at checked
  · split at checked
    · cases checked
    · rename_i zero
      split at checked
      · cases checked
      · rename_i sub
        have zero : s.flag = 0 := by simpa using zero
        cases checked
        exact ⟨by rw [zero], by rw [zero]; decide, small sub⟩
  · split at checked
    · cases checked
    · rename_i both
      cases checked
      exact ⟨rfl, small fun h => both (.inl h), small fun h => both (.inr h)⟩

theorem execSize_ok {width : Int} (checked : ¬(width ≠ 1 ∧ width ≠ 4 ∧ width ≠ 8 ∧ width ≠ 16)) :
    execSizeOfCode (execSizeCode width) = width ∧ (execSizeCode width).toNat < 8 := by
  have widths : width = 1 ∨ width = 4 ∨ width = 8 ∨ width = 16 := by omega
  rcases widths with rfl | rfl | rfl | rfl <;> decide

theorem headerWord_stored {g : Generation} {s : State} {op : Native.Opcode} {w : Word}
    (plain : op.isThreeSource = false) (encoded : g.headerWord s op = .ok w) :
    Stored (headerStores g.layout) .zero w := by
  simp only [headerWord, refuse_ok, bind_ok, pure_ok, plain, Bool.false_eq_true, ↓reduceIte] at encoded
  obtain ⟨_, flag, _, encoded⟩ := encoded
  by_cases unpredicated : s.predicate = 0 <;>
    simp only [unpredicated, ↓reduceIte] at encoded <;> subst encoded <;> unfold Field.setBool <;>
    repeat' first | exact .same | refine .store _ (by simp [headerStores]) ?_

/-- The header of a word that is not a three-source word is read back. -/
theorem decodeHeader_headerWord {g : Generation} {s : State} {op : Native.Opcode} {w : Word}
    (fits : StateFits s) (known : op ∈ Native.Opcode.all) (plain : op.isThreeSource = false)
    (encoded : g.headerWord s op = .ok w) : g.layout.decodeHeader w = readHeader s op := by
  simp only [headerWord, refuse_ok, bind_ok, pure_ok, plain, Bool.false_eq_true, ↓reduceIte] at encoded
  obtain ⟨widths, flag, checked, encoded⟩ := encoded
  obtain ⟨rfl, flagSmall, subSmall⟩ := checkedFlag_ok checked
  obtain ⟨listed, opcodeSmall⟩ := opcode_listed op known
  obtain ⟨size, sizeSmall⟩ := execSize_ok widths
  have quarter := fits.quarter
  have predicate := fits.predicate
  by_cases unpredicated : s.predicate = 0
  · simp only [unpredicated, ↓reduceIte] at encoded
    subst encoded
    rcases layout_cases g with family | family <;> rw [family] <;>
      simp (disch := first | decide | assumption) [decodeHeader, readHeader, get_set_clear,
        get_setBool_clear, isOne_set_clear, isOne_setBool_clear, isOne_setBool, get_set_lt 2,
        get_set_lt 4, get_set_lt 8, get_set_lt 128, isOne_zero, listed, size, unpredicated]
  · simp only [unpredicated, ↓reduceIte] at encoded
    subst encoded
    rcases layout_cases g with family | family <;> rw [family] <;>
      simp (disch := first | decide | assumption) [decodeHeader, readHeader, get_set_clear,
        get_setBool_clear, isOne_set_clear, isOne_setBool_clear, isOne_setBool, get_set_lt 2,
        get_set_lt 4, get_set_lt 8, get_set_lt 16, get_set_lt 128, listed, size, unpredicated]

/-- The header of a three-source word is read back, its flag register from the fields of three-source
words. -/
theorem decodeHeader_tripleHeader {g : Generation} {s : State} {op : Native.Opcode} {w : Word}
    (fits : StateFits s) (known : op ∈ Native.Opcode.all) (triple : op.isThreeSource = true)
    (encoded : g.headerWord s op = .ok w) :
    { g.layout.decodeHeader w with
      flag := g.layout.triple.flagReg.get w
      subFlag := g.layout.triple.flagSubreg.get w } = readHeader s op := by
  simp only [headerWord, refuse_ok, bind_ok, pure_ok, triple, ↓reduceIte] at encoded
  obtain ⟨widths, flag, checked, encoded⟩ := encoded
  obtain ⟨rfl, flagSmall, subSmall⟩ := checkedFlag_ok checked
  obtain ⟨listed, opcodeSmall⟩ := opcode_listed op known
  obtain ⟨size, sizeSmall⟩ := execSize_ok widths
  have quarter := fits.quarter
  have predicate := fits.predicate
  by_cases unpredicated : s.predicate = 0
  · simp only [unpredicated, ↓reduceIte] at encoded
    subst encoded
    rcases layout_cases g with family | family <;> rw [family] <;>
      simp (disch := first | decide | assumption) [decodeHeader, readHeader, get_set_clear,
        get_setBool_clear, isOne_set_clear, isOne_setBool_clear, isOne_setBool, get_set_lt 2,
        get_set_lt 4, get_set_lt 8, get_set_lt 128, isOne_zero, listed, size, unpredicated]
  · simp only [unpredicated, ↓reduceIte] at encoded
    subst encoded
    rcases layout_cases g with family | family <;> rw [family] <;>
      simp (disch := first | decide | assumption) [decodeHeader, readHeader, get_set_clear,
        get_setBool_clear, isOne_set_clear, isOne_setBool_clear, isOne_setBool, get_set_lt 2,
        get_set_lt 4, get_set_lt 8, get_set_lt 16, get_set_lt 128, listed, size, unpredicated]

/-- A fresh header leaves every field of a destination and the addressing mode of a source clear. -/
theorem headerWord_fresh {g : Generation} {s : State} {op : Native.Opcode} {w : Word}
    (plain : op.isThreeSource = false) (encoded : g.headerWord s op = .ok w) :
    ∀ f ∈ g.layout.src0.addressMode :: destinationFields g.layout, f.get w = 0 := by
  have clear : AllClear (g.layout.src0.addressMode :: destinationFields g.layout)
      (headerStores g.layout) := by
    rcases layout_cases g with family | family <;> rw [family] <;> decide
  intro f member
  rw [get_stored (headerWord_stored plain encoded) (clear f member), Field.get_zero]

theorem decodeHeader_congr {l : Layout} {w w' : Word}
    (same : ∀ f ∈ headerFields l, f.get w' = f.get w) : l.decodeHeader w' = l.decodeHeader w := by
  simp only [headerFields, List.mem_cons, List.not_mem_nil, or_false, forall_eq_or_imp,
    forall_eq] at same
  simp [decodeHeader, Field.isOne, same]

theorem decodeDst_congr {l : Layout} {w w' : Word}
    (same : ∀ f ∈ destinationFields l, f.get w' = f.get w) : l.decodeDst w' = l.decodeDst w := by
  simp only [destinationFields, List.mem_cons, List.not_mem_nil, or_false, forall_eq_or_imp,
    forall_eq] at same
  simp [decodeDst, fileAt, SplitField.getSigned, SplitField.get, Field.isOne, same]

/-- A register source is read from its own fields only. -/
theorem decodeSrc0_congr {l : Layout} {w w' : Word}
    (same : ∀ f ∈ source0Fields l, f.get w' = f.get w) (register : fileAt l.src0.file w ≠ .imm) :
    l.decodeSrc0 w' = l.decodeSrc0 w := by
  simp only [source0Fields, List.mem_cons, List.not_mem_nil, or_false, forall_eq_or_imp,
    forall_eq] at same
  have file : fileAt l.src0.file w' = fileAt l.src0.file w := by simp [fileAt, same]
  simp [decodeSrc0, file, register, decodeSourceShape, SplitField.getSigned, SplitField.get,
    Field.isOne, same]

end GpuCodegen.WordRoundTrip
