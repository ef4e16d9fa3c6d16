import GpuCodegen.Proofs.Footprints

/-! Words that write memory. `Generation.writesMemory` has nothing but the word: it takes the operation,
the shared function and the function control out of their fields again. What it finds there is what the
command put there, since no later store reaches these fields, and of all commands only atomics, untyped
writes and scratch writes put the control of a write in front of a data port. -/

namespace GpuCodegen.MemoryWrites
open Native Native.Layout Generation Outcome WordRoundTrip

/-! ## Operations -/

/-- The operation a word names. -/
def opcodeOf (g : Generation) (w : Word) : Native.Opcode := .ofCode (g.layout.header.opcode.get w).toUInt8

/-- The fields of a header without its operation, for words of all shapes. -/
def controlFields (l : Layout) : List Field :=
  [l.header.execSize, l.header.accWrite, l.header.quarterControl, l.header.nibControl, l.header.maskControl,
    l.header.flagReg, l.header.flagSubreg, l.triple.flagReg, l.triple.flagSubreg, l.header.predControl,
    l.header.predInvert, l.header.saturate, l.header.condition]

/-- The fields of a three-source word's operands. -/
def tripleFields (l : Layout) : List Field :=
  [l.header.accessMode, l.triple.dstFile, l.triple.dstType, l.triple.srcType, l.triple.dstNumber, l.triple.dstSub,
    l.triple.writemask] ++ l.triple.sources.flatMap tripleSourceFields

/-- The fields of all operands. -/
def operandFields (l : Layout) : List Field :=
  destinationFields l ++ source0Fields l ++ immediateFields l ++ source1Fields l ++ descriptorFields l ++ tripleFields l

theorem opcode_clear (g : Generation) :
    AllClear [g.layout.header.opcode] (controlFields g.layout ++ operandFields g.layout) := by
  rcases layout_cases g with family | family <;> rw [family] <;> decide

theorem execSize_clear (g : Generation) : AllClear [g.layout.header.execSize] (tripleFields g.layout) := by
  rcases layout_cases g with family | family <;> rw [family] <;> decide

/-- No store into a word that has its operation changes it. -/
theorem opcodeOf_stored {g : Generation} {fields : List Field} {w w' : Word} (stored : Stored fields w w')
    (others : ∀ f ∈ fields, f ∈ controlFields g.layout ++ operandFields g.layout) :
    opcodeOf g w' = opcodeOf g w := by
  rw [opcodeOf, get_stored stored fun f member => opcode_clear g _ (List.mem_singleton.mpr rfl) f (others f member),
    ← opcodeOf]

theorem opcodeOf_set {g : Generation} {f : Field} (other : f ∈ controlFields g.layout ++ operandFields g.layout)
    (v : UInt32) (w : Word) : opcodeOf g (f.set v w) = opcodeOf g w := by
  have stored : Stored [f] w (f.set v w) := .store v (List.mem_singleton.mpr rfl) .same
  exact opcodeOf_stored stored fun x member => List.mem_singleton.mp member ▸ other

section
variable {g : Generation} {s : State} {op : Native.Opcode} {w w' : Word}

/-- A header begins with its operation and its number of lanes; no later part of it is stored over them. -/
theorem headerWord_later (encoded : g.headerWord s op = .ok w) :
    Stored ((controlFields g.layout).drop 1)
      (g.layout.header.execSize.set (execSizeCode s.execWidth) (g.layout.header.opcode.set op.code.toUInt32 .zero))
      w := by
  simp only [headerWord, refuse_ok, bind_ok, pure_ok] at encoded
  obtain ⟨-, flag, -, encoded⟩ := encoded
  unfold Field.setBool at encoded
  by_cases triple : op.isThreeSource = true <;> by_cases unpredicated : s.predicate = 0 <;>
    simp only [triple, unpredicated, Bool.false_eq_true, ↓reduceIte] at encoded <;> subst encoded <;>
    repeat' first | exact .same | refine .store _ (by simp [controlFields]) ?_

theorem headerWord_opcode (known : op ∈ Native.Opcode.all) (encoded : g.headerWord s op = .ok w) :
    opcodeOf g w = op := by
  obtain ⟨listed, small⟩ := opcode_listed op known
  have range : g.layout.header.opcode.Proper ∧ 2 ^ g.layout.header.opcode.width = 128 := by
    rcases layout_cases g with family | family <;> rw [family] <;> decide
  have sized : Stored (controlFields g.layout) (g.layout.header.opcode.set op.code.toUInt32 .zero) w :=
    (Stored.store _ (by simp [controlFields]) .same).trans
      ((headerWord_later encoded).mono fun f member => List.mem_of_mem_drop member)
  rw [opcodeOf_stored sized fun f member => List.mem_append_left _ member, opcodeOf, get_set_lt 128 range small]
  simpa using listed

theorem headerWord_execSize (encoded : g.headerWord s op = .ok w) :
    execSizeOfCode (g.layout.header.execSize.get w) = s.execWidth := by
  have clear : AllClear [g.layout.header.execSize] ((controlFields g.layout).drop 1) := by
    rcases layout_cases g with family | family <;> rw [family] <;> decide
  have range : g.layout.header.execSize.Proper ∧ 2 ^ g.layout.header.execSize.width = 8 := by
    rcases layout_cases g with family | family <;> rw [family] <;> decide
  have widths := encoded
  simp only [headerWord, refuse_ok] at widths
  obtain ⟨size, small⟩ := execSize_ok widths.1
  rw [get_stored (headerWord_later encoded) (clear _ (List.mem_singleton.mpr rfl)), get_set_lt 8 range small, size]

theorem setDestination_opcode {r : Register} (encoded : g.setDestination r w = .ok w') :
    opcodeOf g w' = opcodeOf g w :=
  opcodeOf_stored (setDestination_stored encoded) fun f member => by simp [operandFields, member]

theorem setSource0_opcode {r : Register} (encoded : g.setSource0 s r w = .ok w') :
    opcodeOf g w' = opcodeOf g w := by
  by_cases immediate : r.file = .imm
  · refine opcodeOf_stored (setSource0_immediate_stored immediate encoded) fun f member => ?_
    rcases List.mem_append.mp member with here | here <;> simp [operandFields, here]
  · exact opcodeOf_stored (setSource0_register_stored immediate encoded) fun f member => by
      simp [operandFields, member]

theorem setSource1_opcode {r : Register} (encoded : g.setSource1 s r w = .ok w') :
    opcodeOf g w' = opcodeOf g w :=
  opcodeOf_stored (setSource1_stored encoded) fun f member => by simp [operandFields, member]

theorem unaryWord_opcode {dst src : Register} (known : op ∈ Native.Opcode.all)
    (encoded : g.unaryWord s op dst src = .ok w) : opcodeOf g w = op := by
  simp only [unaryWord, bind_ok] at encoded
  obtain ⟨w₀, header, w₁, destination, source⟩ := encoded
  rw [setSource0_opcode source, setDestination_opcode destination, headerWord_opcode known header]

theorem binaryWord_opcode {dst src0 src1 : Register} (known : op ∈ Native.Opcode.all)
    (encoded : g.binaryWord s op dst src0 src1 = .ok w) : opcodeOf g w = op := by
  simp only [binaryWord, bind_ok] at encoded
  obtain ⟨w₀, header, w₁, destination, w₂, source, second⟩ := encoded
  rw [setSource1_opcode second, setSource0_opcode source, setDestination_opcode destination,
    headerWord_opcode known header]

theorem compareWord_opcode {condition : UInt32} {dst src0 src1 : Register}
    (encoded : g.compareWord s condition dst src0 src1 = .ok w) : opcodeOf g w = .cmp := by
  simp only [compareWord, bind_ok, refuse_ok] at encoded
  obtain ⟨w₀, header, -, w₁, destination, w₂, source, second⟩ := encoded
  have kept : opcodeOf g (g.layout.header.condition.set condition w₀) = opcodeOf g w₀ :=
    opcodeOf_set (by simp [controlFields]) _ _
  rw [setSource1_opcode second, setSource0_opcode source, setDestination_opcode destination, kept,
    headerWord_opcode (by decide) header]

theorem tripleWord_stored {dst src0 src1 src2 : Register} (encoded : g.tripleWord s op dst src0 src1 src2 = .ok w) :
    ∃ w₀, g.headerWord s op = .ok w₀ ∧ Stored (tripleFields g.layout) w₀ w := by
  obtain ⟨w₀, dstCode, srcCode, header, -, -, -, -, -, rfl⟩ := tripleWord_ok encoded
  have base : Stored (tripleFields g.layout) w₀ (tripleBase g.layout dst dstCode srcCode w₀) := by
    unfold tripleBase
    repeat' first | exact .same | refine .store _ (by simp [tripleFields]) ?_
  have source {f : TripleSourceFields} (listed : f ∈ g.layout.triple.sources) (r : Register) (w : Word) :
      Stored (tripleFields g.layout) w (setTripleSource f r w) :=
    (setTripleSource_stored f r w).mono fun x member =>
      List.mem_append_right _ (List.mem_flatMap.mpr ⟨f, listed, member⟩)
  exact ⟨w₀, header, ((base.trans (source (by simp [TripleFields.sources]) src0 _)).trans
    (source (by simp [TripleFields.sources]) src1 _)).trans (source (by simp [TripleFields.sources]) src2 _)⟩

/-- A half of a three-source word is stored over it, the number of lanes among the rest. -/
theorem halves_stored (l : Layout) (w : Word) :
    ∀ half ∈ [l.lowerHalf w, l.upperHalf w], Stored (l.header.quarterControl :: tripleFields l)
      (l.header.execSize.set (execSizeCode 8) w) half := by
  have lower : Stored (l.header.quarterControl :: tripleFields l) (l.header.execSize.set (execSizeCode 8) w)
      (l.lowerHalf w) := .store _ (by simp) .same
  have advanced {f : TripleSourceFields} {w w' : Word} (listed : f ∈ l.triple.sources)
      (stored : Stored (l.header.quarterControl :: tripleFields l) w w') :
      Stored (l.header.quarterControl :: tripleFields l) w (advanceSource f w') := by
    unfold advanceSource
    split
    · exact .store _ (List.mem_cons_of_mem _ (List.mem_append_right _
        (List.mem_flatMap.mpr ⟨f, listed, by simp [tripleSourceFields]⟩))) stored
    · exact stored
  intro half member
  rcases List.mem_cons.mp member with rfl | upper
  · exact lower
  · cases List.mem_singleton.mp upper
    unfold upperHalf
    exact advanced (by simp [TripleFields.sources]) (advanced (by simp [TripleFields.sources])
      (advanced (by simp [TripleFields.sources])
        (.store _ (by simp [tripleFields]) (.store _ (by simp) lower))))

/-- The words of a three-source command name its operation, and none is left to be split. -/
theorem tripleWords_split {dst src0 src1 src2 : Register} {ws : List Word} (known : op ∈ Native.Opcode.all)
    (encoded : g.tripleWords s op dst src0 src1 src2 = .ok ws) :
    ∀ w ∈ ws, opcodeOf g w = op ∧ (g.supports .tripleSimd16 = false → g.layout.isWideTriple w = false) := by
  simp only [tripleWords, bind_ok] at encoded
  obtain ⟨w, encoded, halves⟩ := encoded
  obtain ⟨w₀, header, stored⟩ := tripleWord_stored encoded
  have named : opcodeOf g w = op := by
    rw [opcodeOf_stored stored fun f member => by simp [operandFields, member], headerWord_opcode known header]
  have lanes : execSizeOfCode (g.layout.header.execSize.get w) = s.execWidth := by
    rw [get_stored stored (execSize_clear g _ (List.mem_singleton.mpr rfl)), headerWord_execSize header]
  split at halves <;> rw [pure_ok] at halves <;> subst halves
  · intro half member
    have stored := halves_stored g.layout w half member
    refine ⟨?_, fun _ => ?_⟩
    · have resized : Stored [g.layout.header.execSize] w (g.layout.header.execSize.set (execSizeCode 8) w) :=
        .store _ (by simp) .same
      rw [opcodeOf_stored stored fun f inside => ?_, opcodeOf_stored resized (by simp [controlFields]), named]
      rcases List.mem_cons.mp inside with rfl | inside
      · simp [controlFields]
      · simp [operandFields, inside]
    · have clear : AllClear [g.layout.header.execSize] (g.layout.header.quarterControl :: tripleFields g.layout) := by
        rcases layout_cases g with family | family <;> rw [family] <;> decide
      have range : g.layout.header.execSize.Proper ∧ 2 ^ g.layout.header.execSize.width = 8 := by
        rcases layout_cases g with family | family <;> rw [family] <;> decide
      rw [isWideTriple, get_stored stored (clear _ (List.mem_singleton.mpr rfl)),
        get_set_lt 8 range (show (execSizeCode 8).toNat < 8 by decide),
        show (execSizeOfCode (execSizeCode 8) == 16) = false by decide, Bool.and_false]
  · rename_i whole
    intro v member
    cases List.mem_singleton.mp member
    refine ⟨named, fun narrow => ?_⟩
    rw [isWideTriple, lanes]
    have few : s.execWidth ≠ 16 := fun wide => whole ⟨wide, narrow⟩
    simp [few]

end

/-! ## Messages -/

/-- Whether a message to a shared function with a function control is one that `writesMemory` counts. -/
def storesThrough (g : Generation) (target : SharedFunction) (function : UInt32) : Bool :=
  let type := (function >>> 14) &&& 0xf
  (target == g.memoryFunction || target == g.untypedFunction) &&
    if function &&& scratchCategory ≠ 0 then function &&& scratchWriteBit != 0
    else if type = 13 ∨ type = 6 then target != .dataCache1
    else if type = 9 ∨ type = 2 then target == .dataCache1
    else false

theorem writesMemory_eq (g : Generation) (w : Word) : g.writesMemory w = (opcodeOf g w == .send &&
    storesThrough g (.ofCode (g.layout.header.condition.get w).toUInt8) (g.layout.descriptor.function.get w)) := by
  simp only [writesMemory, storesThrough, opcodeOf, Bool.and_assoc]

theorem sharedFunction_listed (target : SharedFunction) (listed : target ∈ SharedFunction.all) :
    SharedFunction.ofCode target.code = target ∧ target.code.toUInt32.toNat < 16 := by
  revert target
  decide

section
variable {g : Generation} {s : State} {w : Word} {target : SharedFunction} {dst payload : Register} {d : Descriptor}

theorem sendWord_opcode (encoded : g.sendWord s target dst payload d = .ok w) : opcodeOf g w = .send := by
  simp only [sendWord, bind_ok, refuse_ok] at encoded
  obtain ⟨w₀, header, -, w₁, destination, w₂, source, descriptor⟩ := encoded
  have named : Stored [g.layout.header.condition] w₂ (g.layout.header.condition.set target.code.toUInt32 w₂) :=
    .store _ (by simp) .same
  rw [opcodeOf_stored (setDescriptor_stored descriptor) fun f member => by simp [operandFields, member],
    opcodeOf_stored named (by simp [controlFields]), setSource0_opcode source, setDestination_opcode destination,
    headerWord_opcode (by decide) header]

/-- A message is classified by what it was encoded from. -/
theorem sendWord_writesMemory (listed : target ∈ SharedFunction.all)
    (encoded : g.sendWord s target dst payload d = .ok w) :
    g.writesMemory w = storesThrough g target d.function := by
  have opcode := sendWord_opcode encoded
  simp only [sendWord, bind_ok, refuse_ok] at encoded
  obtain ⟨w₀, -, -, w₁, -, w₂, -, descriptor⟩ := encoded
  obtain ⟨known, small⟩ := sharedFunction_listed target listed
  have range : g.layout.header.condition.Proper ∧ 2 ^ g.layout.header.condition.width = 16 := by
    rcases layout_cases g with family | family <;> rw [family] <;> decide
  have condition : g.layout.header.condition.get w = target.code.toUInt32 := by
    rw [get_stored (setDescriptor_stored descriptor) (header_clear_descriptor g _ (by simp [headerFields])),
      get_set_lt 16 range small]
  have function : g.layout.descriptor.function.get w = d.function :=
    congrArg Descriptor.function (decodeDescriptor_setDescriptor descriptor)
  rw [writesMemory_eq, opcode, condition, function, show target.code.toUInt32.toUInt8 = target.code by simp, known]
  rfl

end

/-- A mask of one bit finds that bit. -/
theorem and_bit {mask : UInt32} {n : Nat} (single : mask.toNat = 2 ^ n) (v : UInt32) :
    v &&& mask ≠ 0 ↔ v.toNat.testBit n = true := by
  have bits (i : Nat) : (v &&& mask).toNat.testBit i = (v.toNat.testBit i && decide (n = i)) := by
    rw [UInt32.toNat_and, single, Nat.testBit_and, Nat.testBit_two_pow]
  constructor
  · intro some_
    by_contra clear
    refine some_ (UInt32.toNat_inj.mp (Nat.eq_of_testBit_eq fun i => ?_))
    rw [bits i]
    by_cases here : n = i
    · subst here
      simpa using clear
    · simp [here]
  · intro set zero
    have here := bits n
    rw [zero, set] at here
    simp at here

theorem testBit_beyond {v k i : Nat} (small : v < 2 ^ k) (beyond : k ≤ i) : v.testBit i = false :=
  Nat.testBit_lt_two_pow (Nat.lt_of_lt_of_le small (Nat.pow_le_pow_right (by decide) beyond))

/-- The function control of a surface message gives its type back and is no scratch message's. -/
theorem surface_type (surface : UInt8) {control type : UInt32} (few : control.toNat < 64) (small : type.toNat < 16) :
    ((surface.toUInt32 ||| (control <<< 8) ||| (type <<< 14)) >>> 14) &&& 0xf = type ∧
      (surface.toUInt32 ||| (control <<< 8) ||| (type <<< 14)) &&& scratchCategory = 0 := by
  have surfaceBit {i : Nat} (high : 8 ≤ i) : surface.toNat.testBit i = false := testBit_beyond surface.toNat_lt high
  have controlBit {i : Nat} (high : 6 ≤ i) : control.toNat.testBit i = false := testBit_beyond few high
  have typeBit {i : Nat} (high : 4 ≤ i) : type.toNat.testBit i = false := testBit_beyond small high
  have bits (i : Nat) : (surface.toUInt32 ||| (control <<< 8) ||| (type <<< 14)).toNat.testBit i =
      (surface.toNat.testBit i || decide (i < 32) && (decide (8 ≤ i) && control.toNat.testBit (i - 8)) ||
        decide (i < 32) && (decide (14 ≤ i) && type.toNat.testBit (i - 14))) := by
    simp only [UInt32.toNat_or, UInt32.toNat_shiftLeft, UInt8.toNat_toUInt32, Nat.testBit_or, Nat.testBit_mod_two_pow,
      Nat.testBit_shiftLeft, UInt32.reduceToNat, Nat.reduceMod, ge_iff_le]
  constructor
  · refine UInt32.toNat_inj.mp (Nat.eq_of_testBit_eq fun i => ?_)
    rw [UInt32.toNat_and, UInt32.toNat_shiftRight, show (15 : UInt32).toNat = 2 ^ 4 - 1 from rfl, Nat.testBit_and,
      Nat.testBit_two_pow_sub_one, Nat.testBit_shiftRight, show (14 : UInt32).toNat % 32 = 14 from rfl, bits,
      surfaceBit (by omega), controlBit (by omega), Nat.add_sub_cancel_left]
    by_cases inside : i < 4
    · simp [inside, show 14 + i < 32 by omega]
    · simp [inside, typeBit (Nat.not_lt.mp inside)]
  · refine Decidable.not_not.mp fun set => ?_
    rw [← ne_eq, and_bit (n := 18) rfl, bits, surfaceBit (by decide), controlBit (by decide),
      typeBit (by decide)] at set
    simp at set

/-- A surface message is told by its type, which differs between the two data caches. -/
theorem storesThrough_surface (g : Generation) (surface : UInt8) {control type : UInt32} (few : control.toNat < 64)
    (small : type.toNat < 16) :
    storesThrough g g.untypedFunction (surface.toUInt32 ||| (control <<< 8) ||| (type <<< 14)) =
      if type = 13 ∨ type = 6 then g.untypedFunction != .dataCache1
      else if type = 9 ∨ type = 2 then g.untypedFunction == .dataCache1
      else false := by
  obtain ⟨named, unscratched⟩ := surface_type surface few small
  simp [storesThrough, named, unscratched]

theorem untypedType_small (g : Generation) {first second : UInt32} (small : first.toNat < 16 ∧ second.toNat < 16) :
    (g.untypedType first second).toNat < 16 := by
  unfold untypedType
  split
  · exact small.2
  · exact small.1

theorem untypedControl_small {s : State} {elements : Int} {control : UInt32}
    (made : untypedControl s elements = .ok control) : control.toNat < 64 := by
  unfold untypedControl at made
  dsimp only at made
  repeat' split at made
  all_goals first
    | cases made; decide
    | cases made

/-- The bits of a scratch message: its category, the code of its block, its row and the write bit. -/
theorem scratchFunction_testBit {write : Bool} {offset : UInt32} {registers : Int} {function : UInt32}
    (made : scratchFunction write offset registers = .ok function) :
    ∃ block : UInt32, (registers = 1 ∧ block = 0 ∨ registers = 2 ∧ block = 1 ∨ registers = 4 ∧ block = 3) ∧
      (∀ {i}, 2 ≤ i → block.toNat.testBit i = false) ∧ (∀ {i}, 12 ≤ i → (offset / grfSize).toNat.testBit i = false) ∧
      ∀ i, function.toNat.testBit i =
        (decide (i = 18) || decide (i < 32) && (decide (12 ≤ i) && block.toNat.testBit (i - 12)) ||
          (offset / grfSize).toNat.testBit i || (decide (i = 17) && write)) := by
  obtain ⟨block, code, placed, rfl⟩ : ∃ block : UInt32,
      (registers = 1 ∧ block = 0 ∨ registers = 2 ∧ block = 1 ∨ registers = 4 ∧ block = 3) ∧
      ¬(offset % grfSize ≠ 0 ∨ maxScratchOffset < offset) ∧
      scratchCategory ||| (block <<< 12) ||| (offset / grfSize) ||| (if write then scratchWriteBit else 0) =
        function := by
    unfold scratchFunction at made
    dsimp only at made
    split at made
    · rename_i one
      simp only [pure_bind, refuse_ok, pure_ok] at made
      exact ⟨0, .inl ⟨one, rfl⟩, made.1, made.2⟩
    · split at made
      · rename_i two
        simp only [pure_bind, refuse_ok, pure_ok] at made
        exact ⟨1, .inr (.inl ⟨two, rfl⟩), made.1, made.2⟩
      · split at made
        · rename_i four
          simp only [pure_bind, refuse_ok, pure_ok] at made
          exact ⟨3, .inr (.inr ⟨four, rfl⟩), made.1, made.2⟩
        · cases made
  have row : (offset / grfSize).toNat < 4096 := by
    rw [not_or, UInt32.not_lt, UInt32.le_iff_toNat_le] at placed
    have most : offset.toNat ≤ 4095 * 32 := placed.2
    rw [UInt32.toNat_div, show grfSize.toNat = 32 from rfl]
    omega
  have few : block.toNat < 4 := by
    rcases code with ⟨-, rfl⟩ | ⟨-, rfl⟩ | ⟨-, rfl⟩ <;> decide
  refine ⟨block, code, testBit_beyond few, testBit_beyond row, fun i => ?_⟩
  have category : scratchCategory.toNat.testBit i = decide (i = 18) := by
    rw [show scratchCategory.toNat = 2 ^ 18 from rfl, Nat.testBit_two_pow]
    simp only [eq_comm]
  have written : (if write then scratchWriteBit else 0).toNat.testBit i = (decide (i = 17) && write) := by
    cases write
    · simp
    · rw [if_pos rfl, show scratchWriteBit.toNat = 2 ^ 17 from rfl, Nat.testBit_two_pow]
      simp [eq_comm]
  simp only [UInt32.toNat_or, UInt32.toNat_shiftLeft, Nat.testBit_or, Nat.testBit_mod_two_pow, category, written,
    Nat.testBit_shiftLeft, UInt32.reduceToNat, Nat.reduceMod, ge_iff_le]

/-- A scratch message carries its category, and the write bit when it writes. -/
theorem scratchFunction_bits {write : Bool} {offset : UInt32} {registers : Int} {function : UInt32}
    (made : scratchFunction write offset registers = .ok function) :
    function &&& scratchCategory ≠ 0 ∧ (function &&& scratchWriteBit ≠ 0 ↔ write = true) := by
  obtain ⟨block, -, blockBit, rowBit, bits⟩ := scratchFunction_testBit made
  rw [and_bit (n := 18) rfl, and_bit (n := 17) rfl, bits, bits, blockBit (by decide), blockBit (by decide),
    rowBit (by decide), rowBit (by decide)]
  simp

theorem storesThrough_scratch {g : Generation} {write : Bool} {offset : UInt32} {registers : Int} {function : UInt32}
    (made : scratchFunction write offset registers = .ok function) :
    storesThrough g g.memoryFunction function = write := by
  obtain ⟨scratch, writes⟩ := scratchFunction_bits made
  cases write <;> simp_all [storesThrough]

/-- A message to a shared function that is no data port is never counted. -/
theorem storesThrough_elsewhere (g : Generation) {target : SharedFunction}
    (elsewhere : target ∉ [SharedFunction.renderCache, .dataCache0, .dataCache1]) (function : UInt32) :
    storesThrough g target function = false := by
  simp only [List.mem_cons, List.not_mem_nil, or_false, not_or] at elsewhere
  unfold storesThrough memoryFunction untypedFunction
  split <;> (try split) <;> simp [elsewhere]

/-! ## Commands -/

/-- The commands that store to memory: atomics, and the writes to surfaces and to scratch memory. -/
def storesMemory : Command → Bool
  | .atomic .. | .untypedWrite .. | .scratchWrite .. => true
  | _ => false

/-- Where a word of a command comes from: it is a message that is counted if the command stores to memory, or
no message at all. -/
inductive WordOf (g : Generation) (c : Command) (w : Word) : Prop where
  | message {s : State} {target : SharedFunction} {dst payload : Register} {d : Descriptor}
      (listed : target ∈ SharedFunction.all) (encoded : g.sendWord s target dst payload d = .ok w)
      (stores : storesThrough g target d.function = storesMemory c)
  | plain (opcode : opcodeOf g w ≠ .send) (quiet : storesMemory c = false)
      (split : g.supports .tripleSimd16 = false → g.layout.isWideTriple w = false)

section
variable {g : Generation} {s : State} {c : Command} {ws : List Word} {w : Word}

/-- A word whose operation takes at most two sources is not split. -/
theorem narrow_of_opcode {op : Native.Opcode} (named : opcodeOf g w = op) (plain : op.isThreeSource = false) :
    g.layout.isWideTriple w = false := by
  rw [isWideTriple, ← opcodeOf, named, plain, Bool.false_and]

theorem WordOf.of_opcode {op : Native.Opcode} (named : opcodeOf g w = op)
    (plain : op.isThreeSource = false ∧ op ≠ .send) (quiet : storesMemory c = false) : WordOf g c w :=
  .plain (by rw [named]; exact plain.2) quiet fun _ => narrow_of_opcode named plain.1

theorem memoryFunction_listed (g : Generation) : g.memoryFunction ∈ SharedFunction.all := by
  unfold memoryFunction
  split <;> decide

theorem untypedFunction_listed (g : Generation) : g.untypedFunction ∈ SharedFunction.all := by
  unfold untypedFunction
  split
  · decide
  · split <;> decide

/-- The fences are told from the stores by their message type. -/
theorem fenceWord_of {dst payload : Register} {flush : Bool} (encoded : g.fenceWord s dst payload flush = .ok w)
    (quiet : storesMemory c = false) : WordOf g c w := by
  refine .message (memoryFunction_listed g) encoded ?_
  have control {commit images : UInt32} (commits : commit = 0 ∨ commit = 0x20) (flushes : images = 0 ∨ images = 0x10) :
      ((((7 : UInt32) <<< 14) ||| ((commit ||| images) <<< 8)) >>> 14) &&& 0xf = 7 ∧
        (((7 : UInt32) <<< 14) ||| ((commit ||| images) <<< 8)) &&& scratchCategory = 0 := by
    rcases commits with rfl | rfl <;> rcases flushes with rfl | rfl <;> decide
  obtain ⟨type, unscratched⟩ := control (ite_eq_or_eq (dst.isNull = true) 0 0x20)
    (ite_eq_or_eq (flush = true) 0x10 0).symm
  simp [storesThrough, type, unscratched, quiet]

theorem atomicWord_of {function : UInt32} {dst payload : Register} {surface : UInt8} {length : UInt32}
    (encoded : g.atomicWord s function dst payload surface length = .ok w) :
    WordOf g (.atomic function dst payload surface length) w := by
  unfold atomicWord at encoded
  split at encoded
  · cases encoded
  · rename_i valid
    have few : (function ||| (if dst.isNull then 0 else 0x20) ||| (if s.isSimd16 then 0 else 0x10)).toNat < 64 := by
      rw [not_or, UInt32.not_lt, UInt32.le_iff_toNat_le] at valid
      have small : function.toNat < 2 ^ 6 := Nat.lt_of_le_of_lt valid.2 (by decide)
      rw [UInt32.toNat_or, UInt32.toNat_or]
      refine Nat.or_lt_two_pow (n := 6) (Nat.or_lt_two_pow small ?_) ?_ <;> split <;> decide
    refine .message (untypedFunction_listed g) encoded ?_
    rw [storesThrough_surface g surface few (untypedType_small g (by decide))]
    unfold untypedType
    split <;> simp [storesMemory, *]

/-- Every word of a command, unless it is a message with a descriptor of its own, tells whether the command
stores to memory. -/
theorem assemble_wordOf (described : ∀ target dst payload d, c ≠ .send target dst payload d)
    (made : g.assemble s c = .ok ws) : ∀ w ∈ ws, WordOf g c w := by
  have one {x : Except Diagnostic Word} (made : x.map ([·]) = .ok ws) (each : ∀ w, x = .ok w → WordOf g c w) :
      ∀ w ∈ ws, WordOf g c w := by
    obtain ⟨w, built, rfl⟩ := map_ok.mp made
    exact List.forall_mem_singleton.mpr (each w built)
  cases c with
  | unary op dst src =>
    exact one made fun w built =>
      .of_opcode (unaryWord_opcode (by cases op <;> decide) built) (by cases op <;> decide) rfl
  | binary op dst src0 src1 =>
    exact one made fun w built =>
      .of_opcode (binaryWord_opcode (by cases op <;> decide) built) (by cases op <;> decide) rfl
  | compare condition dst src0 src1 =>
    exact one made fun w built => .of_opcode (compareWord_opcode built) (by decide) rfl
  | ternary op dst src0 src1 src2 =>
    intro w member
    obtain ⟨named, split⟩ := tripleWords_split (by cases op <;> decide) made w member
    exact .plain (by rw [named]; cases op <;> decide) rfl split
  | nop => exact one made fun w built => .of_opcode (headerWord_opcode (by decide) built) (by decide) rfl
  | jump distance => exact one made fun w built => .of_opcode (binaryWord_opcode (by decide) built) (by decide) rfl
  | send target dst payload d => exact absurd rfl (described target dst payload d)
  | barrier payload =>
    exact one made fun w built => .message (by decide) built (storesThrough_elsewhere g (by decide) _)
  | wait => exact one made fun w built => .of_opcode (unaryWord_opcode (by decide) built) (by decide) rfl
  | fence dst payload flush => exact one made fun w built => fenceWord_of built rfl
  | flushSampler dst payload =>
    exact one made fun w built => .message (by decide) built (storesThrough_elsewhere g (by decide) _)
  | atomic function dst payload surface length =>
    exact one made fun w built => atomicWord_of built
  | untypedRead dst address surface elements =>
    refine one made fun w built => ?_
    simp only [untypedReadWord, bind_ok] at built
    obtain ⟨control, channels, built⟩ := built
    refine .message (untypedFunction_listed g) built ?_
    rw [storesThrough_surface g surface (untypedControl_small channels) (untypedType_small g (by decide))]
    unfold untypedType
    split <;> simp [storesMemory]
  | untypedWrite payload surface elements =>
    refine one made fun w built => ?_
    simp only [untypedWriteWord, bind_ok] at built
    obtain ⟨control, channels, built⟩ := built
    refine .message (untypedFunction_listed g) built ?_
    rw [storesThrough_surface g surface (untypedControl_small channels) (untypedType_small g (by decide))]
    unfold untypedType
    split <;> simp [storesMemory, *]
  | scratchRead dst header offset registers =>
    refine one made fun w built => ?_
    simp only [scratchReadWord, bind_ok] at built
    obtain ⟨function, bits, built⟩ := built
    exact .message (memoryFunction_listed g) built (storesThrough_scratch bits)
  | scratchWrite header offset registers =>
    refine one made fun w built => ?_
    simp only [scratchWriteWord, bind_ok] at built
    obtain ⟨function, bits, built⟩ := built
    exact .message (memoryFunction_listed g) built (storesThrough_scratch bits)
  | motion message dst payload surface =>
    refine one made fun w built => ?_
    obtain ⟨d, -, sent⟩ := Footprints.motionWord_sends built
    exact .message (by decide) sent (storesThrough_elsewhere g (by decide) _)
  | endThread =>
    simp only [assemble, endThreadWords, bind_ok, pure_ok] at made
    obtain ⟨copy, copied, message, sent, rfl⟩ := made
    rw [List.forall_mem_cons, List.forall_mem_singleton]
    exact ⟨.of_opcode (unaryWord_opcode (by decide) copied) (by decide) rfl,
      .message (by decide) sent (storesThrough_elsewhere g (by decide) _)⟩

theorem WordOf.writesMemory (wordOf : WordOf g c w) : g.writesMemory w = storesMemory c := by
  cases wordOf with
  | message listed encoded stores => rw [sendWord_writesMemory listed encoded, stores]
  | plain opcode quiet _ => rw [writesMemory_eq, quiet, beq_false_of_ne opcode, Bool.false_and]

/-- The assembler leaves no three-source word that the unit would have to run in two halves. -/
theorem assemble_narrow (narrow : g.supports .tripleSimd16 = false) (made : g.assemble s c = .ok ws) :
    ∀ w ∈ ws, g.layout.isWideTriple w = false := by
  by_cases described : ∃ target dst payload d, c = .send target dst payload d
  · obtain ⟨target, dst, payload, d, rfl⟩ := described
    obtain ⟨w, built, rfl⟩ := map_ok.mp made
    exact List.forall_mem_singleton.mpr (narrow_of_opcode (sendWord_opcode built) rfl)
  · intro w member
    cases assemble_wordOf (fun target dst payload d same => described ⟨target, dst, payload, d, same⟩) made w
      member with
    | message _ encoded _ => exact narrow_of_opcode (sendWord_opcode encoded) rfl
    | plain _ _ split => exact split narrow

theorem assemble_ne_nil (made : g.assemble s c = .ok ws) : ws ≠ [] := by
  cases c with
  | ternary op dst src0 src1 src2 =>
    simp only [assemble, tripleWords, bind_ok] at made
    obtain ⟨w, -, halves⟩ := made
    split at halves <;> rw [pure_ok] at halves <;> subst halves <;> exact List.cons_ne_nil _ _
  | endThread =>
    simp only [assemble, endThreadWords, bind_ok, pure_ok] at made
    obtain ⟨copy, -, message, -, rfl⟩ := made
    exact List.cons_ne_nil _ _
  | _ =>
    obtain ⟨w, -, rfl⟩ := map_ok.mp made
    exact List.cons_ne_nil _ _

/-- What an assembler appends for a command writes memory exactly when the command stores to memory. -/
theorem issue_writesMemory (a : Assembler) (described : ∀ target dst payload d, c ≠ .send target dst payload d) :
    ∃ ws, (a.issue c).1.words = a.words ++ ws ∧ ((a.issue c).2 = none ↔ ws = []) ∧
      ∀ w ∈ ws, a.generation.writesMemory w = storesMemory c := by
  unfold Assembler.issue
  cases made : a.generation.assemble a.state c with
  | error d => exact ⟨[], by simp [Assembler.fail], by simp, by simp⟩
  | ok ws =>
    exact ⟨ws, commitAll_words a ws, by simp [assemble_ne_nil made],
      fun w member => (assemble_wordOf described made w member).writesMemory⟩

end

end GpuCodegen.MemoryWrites
