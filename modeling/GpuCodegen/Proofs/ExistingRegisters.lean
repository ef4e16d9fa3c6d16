import GpuCodegen.Proofs.MemoryWrites

/-! The registers a word names. Number fields hold more numbers than there are general registers, so
only the checks before a store keep a word inside the register file. They look at the operands of the
command; the upper half of a three-source instruction that is split into two words names the registers
after them, and nothing looks at those. -/

namespace GpuCodegen.ExistingRegisters
open Native Native.Layout Generation Outcome WordRoundTrip MemoryWrites

/-- An operand that names a general register directly names one that exists. -/
def InFile (r : Register) : Prop := r.file = .grf → r.indirect = none → r.number < maxGrf

/-- Every operand that decoding gives for a word is in the register file. -/
def NamesExisting (l : Layout) (w : Word) : Prop :=
  ∀ d, l.decode w = .ok d → ∀ r ∈ d.dst :: d.sources, InFile r

/-! ## Number fields -/

/-- Where the file field says general register and the addressing mode says direct, the number is one
of the register file. -/
def Bounded (file mode number : Field) (w : Word) : Prop :=
  fileAt file w = .grf → mode.isOne w = false → number.get w < maxGrf

section
variable {g : Generation} {s : State} {w w' : Word} {r : Register} {file mode number : Field}

theorem Bounded.stored {fields : List Field} (bounded : Bounded file mode number w)
    (stored : Stored fields w w') (clear : AllClear [file, mode, number] fields) :
    Bounded file mode number w' := by
  have same (f : Field) (member : f ∈ [file, mode, number]) : f.get w' = f.get w :=
    get_stored stored (clear f member)
  intro named direct
  rw [fileAt, same file (by simp)] at named
  rw [Field.isOne, same mode (by simp)] at direct
  rw [same number (by simp)]
  exact bounded named direct

theorem bounded_of_file (other : fileAt file w ≠ .grf) : Bounded file mode number w :=
  fun named => absurd named other

/-- A checked register puts a small number into its field, unless the file field names the
architecture registers. -/
theorem bounded_of_checked {role : Role} {u : Unit} (checked : checkRegister role r = .ok u)
    (direct : r.indirect = none) (architecture : r.file = .arf → file.get w = 0)
    (number_get : r.number.toNat < 256 → number.get w = r.number) : Bounded file mode number w := by
  by_cases arf : r.file = .arf
  · apply bounded_of_file
    rw [fileAt, architecture arf]
    decide
  · simp only [checkRegister, arf, direct, Option.isSome_none, Bool.false_eq_true, or_self,
      ↓reduceIte] at checked
    split at checked
    · cases checked
    · rename_i small
      rw [UInt32.not_le] at small
      intro _ _
      rw [number_get (Nat.lt_trans (UInt32.lt_iff_toNat_lt.mp small) (by decide))]
      exact small

theorem setDestination_bounded (encoded : g.setDestination r w = .ok w') :
    Bounded g.layout.dst.file g.layout.dst.addressMode g.layout.dst.number w' := by
  simp only [setDestination, refuse_ok, bind_ok] at encoded
  obtain ⟨_, _, checked, code, _, encoded⟩ := encoded
  cases address : r.indirect with
  | none =>
    simp only [address, pure_ok] at encoded
    subst encoded
    refine bounded_of_checked checked address (fun arf => ?_) fun small => ?_
    · have code : RegFile.arf.code.toUInt32.toNat < 4 := by decide
      rw [arf]
      rcases layout_cases g with family | family <;> rw [family] <;>
        simp (disch := first | decide | assumption) only [get_set_clear, get_set_lt 4] <;> rfl
    · rcases layout_cases g with family | family <;> rw [family] <;>
        simp (disch := first | decide | assumption) only [get_set_clear, get_set_lt 256]
  | some a =>
    simp only [address, accept_ok, pure_ok] at encoded
    obtain ⟨-, encoded⟩ := encoded
    have indirect : g.layout.dst.addressMode.isOne w' = true := by
      subst encoded
      rcases layout_cases g with family | family <;> rw [family] <;>
        simp (disch := decide) only [isOne_setSigned_clear, isOne_set_clear, isOne_set_one]
    intro _ direct
    simp [indirect] at direct

/-- Both sources are placed alike. -/
theorem placed_bounded {f : SourceFields} {role : Role} {u : Unit} (code : UInt32) (region : Region)
    (source : f = g.layout.src0 ∨ f = g.layout.src1) (checked : checkRegister role r = .ok u)
    (direct : r.indirect = none) :
    Bounded f.file mode f.number
      (setRegion f region (f.sub.set r.sub (f.number.set r.number (setSourceShape f r code w)))) := by
  have shape : f.file.Proper ∧ 2 ^ f.file.width = 4 ∧ f.number.Proper ∧ 2 ^ f.number.width = 256 ∧
      AllClear [f.file] [f.vertical, f.width, f.horizontal, f.sub, f.number, f.neg, f.abs, f.type] ∧
      AllClear [f.number] [f.vertical, f.width, f.horizontal, f.sub] := by
    rcases layout_cases g with family | family <;> rw [family] at source <;>
      rcases source with rfl | rfl <;> decide
  obtain ⟨fileProper, fileWidth, numberProper, numberWidth, fileClear, numberClear⟩ := shape
  have fileKept := fileClear _ (List.mem_singleton.mpr rfl)
  have numberKept := numberClear _ (List.mem_singleton.mpr rfl)
  refine bounded_of_checked checked direct (fun arf => ?_) fun small => ?_
  · unfold setRegion setSourceShape
    rw [arf, get_set_clear (fileKept _ (by simp)), get_set_clear (fileKept _ (by simp)),
      get_set_clear (fileKept _ (by simp)), get_set_clear (fileKept _ (by simp)),
      get_set_clear (fileKept _ (by simp)), get_setBool_clear (fileKept _ (by simp)),
      get_setBool_clear (fileKept _ (by simp)), get_set_clear (fileKept _ (by simp)),
      get_set_lt 4 ⟨fileProper, fileWidth⟩ (by decide)]
    rfl
  · unfold setRegion
    rw [get_set_clear (numberKept _ (by simp)), get_set_clear (numberKept _ (by simp)),
      get_set_clear (numberKept _ (by simp)), get_set_clear (numberKept _ (by simp)),
      get_set_lt 256 ⟨numberProper, numberWidth⟩ small]

theorem setSource0_bounded (encoded : g.setSource0 s r w = .ok w') :
    Bounded g.layout.src0.file g.layout.src0.addressMode g.layout.src0.number w' := by
  by_cases immediate : r.file = .imm
  · apply bounded_of_file
    rw [← decodeSrc0_file (decodeSrc0_immediate immediate encoded), readSource_file, immediate]
    decide
  simp only [setSource0, immediate, ↓reduceIte, bind_ok] at encoded
  obtain ⟨_, checked, code, _, encoded⟩ := encoded
  cases address : r.indirect with
  | none =>
    simp only [address, pure_ok] at encoded
    subst encoded
    exact placed_bounded code _ (.inl rfl) checked address
  | some a =>
    simp only [address, accept_ok, pure_ok] at encoded
    obtain ⟨-, encoded⟩ := encoded
    have indirect : g.layout.src0.addressMode.isOne w' = true := by
      subst encoded
      unfold setRegion
      rcases layout_cases g with family | family <;> rw [family] <;>
        simp (disch := decide) only [isOne_setSigned_clear, isOne_set_clear, isOne_set_one]
    intro _ direct
    simp [indirect] at direct

/-- A second source has no addressing mode. -/
theorem setSource1_bounded (encoded : g.setSource1 s r w = .ok w') :
    Bounded g.layout.src1.file .absent g.layout.src1.number w' := by
  simp only [setSource1, refuse_ok] at encoded
  obtain ⟨_, encoded⟩ := encoded
  by_cases immediate : r.file = .imm
  · simp only [immediate, ↓reduceIte, refuse_ok, bind_ok, pure_ok] at encoded
    obtain ⟨-, code, -, encoded⟩ := encoded
    have stored : g.layout.src1.file.get w' = RegFile.imm.code.toUInt32 := by
      have code : RegFile.imm.code.toUInt32.toNat < 4 := by decide
      subst encoded
      rcases layout_cases g with family | family <;> rw [family] <;>
        simp (disch := first | decide | assumption) only [get_set_clear, get_set_lt 4]
    apply bounded_of_file
    rw [fileAt, stored]
    decide
  · simp only [immediate, ↓reduceIte, refuse_ok, bind_ok, pure_ok] at encoded
    obtain ⟨direct, _, checked, code, -, encoded⟩ := encoded
    have address : r.indirect = none := by simpa using direct
    subst encoded
    exact placed_bounded code _ (.inr rfl) checked address

/-! ## Words of one or two sources -/

theorem decodeDst_inFile {l : Layout} (bounded : Bounded l.dst.file l.dst.addressMode l.dst.number w)
    (read : l.decodeDst w = .ok r) : InFile r := by
  simp only [decodeDst] at read
  split at read
  · cases read
  · split at read <;> cases read
    · intro _ direct
      cases direct
    · rename_i direct
      intro named _
      exact bounded named (by simpa using direct)

theorem decodeSrc0_inFile {l : Layout}
    (bounded : Bounded l.src0.file l.src0.addressMode l.src0.number w)
    (read : l.decodeSrc0 w = .ok r) : InFile r := by
  intro named direct
  have file := decodeSrc0_file read
  rw [named] at file
  have register : fileAt l.src0.file w ≠ .imm := by rw [← file]; decide
  simp only [decodeSrc0, register, ↓reduceIte] at read
  split at read
  · cases read
  · split at read <;> cases read
    · cases direct
    · rename_i mode
      exact bounded file.symm (by simpa using mode)

theorem decodeSrc1_inFile {l : Layout} (bounded : Bounded l.src1.file .absent l.src1.number w)
    (read : l.decodeSrc1 w = .ok r) : InFile r := by
  have direct : Field.absent.isOne w = false := rfl
  simp only [decodeSrc1] at read
  split at read
  · split at read <;> cases read
    intro named
    cases named
  · split at read <;> cases read
    intro named _
    exact bounded named direct

/-- The three parts of a word that is no three-source word, as far as its operation reads them. -/
theorem namesExisting_of_bounded (plain : (opcodeOf g w).isThreeSource = false)
    (destination : Bounded g.layout.dst.file g.layout.dst.addressMode g.layout.dst.number w)
    (source0 : (opcodeOf g w).sources ≠ 0 →
      Bounded g.layout.src0.file g.layout.src0.addressMode g.layout.src0.number w)
    (source1 : 1 < (opcodeOf g w).sources → opcodeOf g w ≠ .send →
      Bounded g.layout.src1.file .absent g.layout.src1.number w) : NamesExisting g.layout w := by
  intro d decoded r member
  have header : (g.layout.decodeHeader w).opcode = opcodeOf g w := rfl
  simp only [decode, header, plain, Bool.false_eq_true, ↓reduceIte] at decoded
  split at decoded
  · cases decoded
  obtain ⟨dst, readDst, decoded⟩ := bind_ok.mp decoded
  have dstInFile := decodeDst_inFile destination readDst
  split at decoded
  · rw [pure_ok] at decoded
    subst decoded
    have only : r = dst := by simpa [decodeHeader] using member
    rw [only]
    exact dstInFile
  rename_i some
  obtain ⟨src0, read0, decoded⟩ := bind_ok.mp decoded
  have src0InFile := decodeSrc0_inFile (source0 some) read0
  have one (both : r = dst ∨ r = src0) : InFile r := by
    rcases both with rfl | rfl
    · exact dstInFile
    · exact src0InFile
  split at decoded
  · rw [pure_ok] at decoded
    subst decoded
    exact one (by simpa using member)
  rename_i other
  split at decoded
  · rw [pure_ok] at decoded
    subst decoded
    exact one (by simpa using member)
  rename_i more
  simp only [refuse_ok, bind_ok, pure_ok] at decoded
  obtain ⟨-, src1, read1, decoded⟩ := decoded
  have src1InFile := decodeSrc1_inFile (source1 (Nat.lt_of_not_le more) other) read1
  subst decoded
  have operands : r = dst ∨ r = src0 ∨ r = src1 := by simpa using member
  rcases operands with rfl | rfl | rfl
  · exact dstInFile
  · exact src0InFile
  · exact src1InFile

/-- The operands that every word but the empty operation has. -/
structure Named (g : Generation) (w : Word) : Prop where
  destination : Bounded g.layout.dst.file g.layout.dst.addressMode g.layout.dst.number w
  source : Bounded g.layout.src0.file g.layout.src0.addressMode g.layout.src0.number w

theorem named_of_stores {dst src : Register} {w₀ w₁ : Word} (destination : g.setDestination dst w₀ = .ok w₁)
    (source : g.setSource0 s src w₁ = .ok w) : Named g w := by
  have stored : Stored (source0Fields g.layout ++ immediateFields g.layout) w₁ w := by
    by_cases immediate : src.file = .imm
    · exact setSource0_immediate_stored immediate source
    · exact (setSource0_register_stored immediate source).mono fun f member =>
        List.mem_append_left _ member
  refine ⟨(setDestination_bounded destination).stored stored fun f member x stores => ?_,
    setSource0_bounded source⟩
  refine destination_clear g f ?_ x (by rcases List.mem_append.mp stores with m | m <;> simp [m])
  simp only [List.mem_cons, List.not_mem_nil, or_false] at member
  rcases member with rfl | rfl | rfl <;> simp [destinationFields]

/-- A second source or a message descriptor leaves the operands before it. -/
theorem Named.later {fields : List Field} (named : Named g w) (stored : Stored fields w w')
    (others : ∀ f ∈ fields,
      f ∈ source1Fields g.layout ++ g.layout.header.condition :: descriptorFields g.layout) :
    Named g w' := by
  refine ⟨named.destination.stored stored fun f member x stores => ?_,
    named.source.stored stored fun f member x stores => ?_⟩
  · have later := others x stores
    refine destination_clear g f ?_ x (by simp only [List.mem_append] at later ⊢; tauto)
    simp only [List.mem_cons, List.not_mem_nil, or_false] at member
    rcases member with rfl | rfl | rfl <;> simp [destinationFields]
  · have later := others x stores
    refine source0_clear g f ?_ x ?_
    · simp only [List.mem_cons, List.not_mem_nil, or_false] at member
      rcases member with rfl | rfl | rfl <;> simp [source0Fields]
    · simp only [List.mem_append, List.mem_cons] at later ⊢
      rcases later with here | rfl | here
      · exact .inl (.inr here)
      · exact .inl (.inl (.inl (by simp [headerFields])))
      · exact .inr here

variable {op : Native.Opcode} {dst src src0 src1 : Register}

theorem headerWord_namesExisting (known : op ∈ Native.Opcode.all) (plain : op.isThreeSource = false)
    (alone : op.sources = 0) (encoded : g.headerWord s op = .ok w) : NamesExisting g.layout w := by
  have named := headerWord_opcode known encoded
  have empty : g.layout.dst.file.get w = 0 :=
    headerWord_fresh plain encoded _ (by simp [destinationFields])
  refine namesExisting_of_bounded (by rw [named, plain]) (bounded_of_file ?_)
    (fun some => absurd (named ▸ alone) some) fun more => absurd (named ▸ alone) (Nat.ne_of_gt (by omega))
  rw [fileAt, empty]
  decide

theorem unaryWord_namesExisting (known : op ∈ Native.Opcode.all) (plain : op.isThreeSource = false)
    (one : op.sources = 1) (encoded : g.unaryWord s op dst src = .ok w) : NamesExisting g.layout w := by
  have named := unaryWord_opcode known encoded
  simp only [unaryWord, bind_ok] at encoded
  obtain ⟨w₀, -, w₁, destination, source⟩ := encoded
  have operands := named_of_stores destination source
  refine namesExisting_of_bounded (by rw [named, plain]) operands.destination (fun _ => operands.source)
    fun more => ?_
  rw [named, one] at more
  exact absurd more (by decide)

/-- The operands of a two-source word whose header is there. -/
theorem sources_namesExisting {w₀ w₁ w₂ : Word} (plain : (opcodeOf g w).isThreeSource = false)
    (destination : g.setDestination dst w₀ = .ok w₁) (source : g.setSource0 s src0 w₁ = .ok w₂)
    (second : g.setSource1 s src1 w₂ = .ok w) : NamesExisting g.layout w := by
  have operands := (named_of_stores destination source).later (setSource1_stored second) fun f member =>
    List.mem_append_left _ member
  exact namesExisting_of_bounded plain operands.destination (fun _ => operands.source) fun _ _ =>
    setSource1_bounded second

theorem binaryWord_namesExisting (known : op ∈ Native.Opcode.all) (plain : op.isThreeSource = false)
    (encoded : g.binaryWord s op dst src0 src1 = .ok w) : NamesExisting g.layout w := by
  have named := binaryWord_opcode known encoded
  simp only [binaryWord, bind_ok] at encoded
  obtain ⟨w₀, -, w₁, destination, w₂, source, second⟩ := encoded
  exact sources_namesExisting (by rw [named, plain]) destination source second

theorem compareWord_namesExisting {condition : UInt32}
    (encoded : g.compareWord s condition dst src0 src1 = .ok w) : NamesExisting g.layout w := by
  have named := compareWord_opcode encoded
  simp only [compareWord, bind_ok, refuse_ok] at encoded
  obtain ⟨w₀, -, -, w₁, destination, w₂, source, second⟩ := encoded
  exact sources_namesExisting (by rw [named]; rfl) destination source second

theorem sendWord_namesExisting {target : SharedFunction} {payload : Register} {d : Descriptor}
    (encoded : g.sendWord s target dst payload d = .ok w) : NamesExisting g.layout w := by
  have named := sendWord_opcode encoded
  simp only [sendWord, bind_ok, refuse_ok] at encoded
  obtain ⟨w₀, -, -, w₁, destination, w₂, source, descriptor⟩ := encoded
  have described : Stored (g.layout.header.condition :: descriptorFields g.layout) w₂ w :=
    (Stored.store _ (List.mem_cons_self ..) .same).trans
      ((setDescriptor_stored descriptor).mono fun f member => List.mem_cons_of_mem _ member)
  have operands := (named_of_stores destination source).later described fun f member =>
    List.mem_append_right _ member
  exact namesExisting_of_bounded (by rw [named]; rfl) operands.destination (fun _ => operands.source)
    fun _ message => absurd named message

/-! ## Three-source words -/

theorem namesExisting_iff {l : Layout} {d : Decoded} (decoded : l.decode w = .ok d) :
    NamesExisting l w ↔ ∀ r ∈ d.dst :: d.sources, InFile r := by
  refine ⟨fun existing => existing d decoded, fun all d' again => ?_⟩
  rw [decoded] at again
  cases again
  exact all

/-- All operands of a three-source word are general registers, addressed directly. -/
theorem readTriple_inFile {h : Decoded} {src2 : Register} :
    (∀ r ∈ (readTriple h dst src0 src1 src2).dst :: (readTriple h dst src0 src1 src2).sources, InFile r) ↔
      ∀ r ∈ [dst, src0, src1, src2], r.number < maxGrf := by
  have source (type : DataType) (r : Register) :
      InFile (readTripleSource type r) ↔ r.number < maxGrf := by
    unfold InFile readTripleSource
    split <;> simp [Register.vec8, Register.vec, Register.toScalar]
  have target : InFile (.vec8 dst.number dst.sub dst.type) ↔ dst.number < maxGrf := by
    simp [InFile, Register.vec8, Register.vec]
  simp [readTriple, source, target]

/-- An operand that has no register after it for the upper eight lanes. -/
def IsLast (r : Register) : Prop := r.number + 1 = maxGrf

instance (r : Register) : Decidable (IsLast r) := inferInstanceAs (Decidable (r.number + 1 = maxGrf))

theorem next_lt {n : UInt32} (small : n.toNat < 128) : n + 1 < maxGrf ↔ n + 1 ≠ maxGrf := by
  have next : (n + 1).toNat = n.toNat + 1 := by
    simp only [UInt32.toNat_add, UInt32.reduceToNat]
    omega
  rw [UInt32.lt_iff_toNat_lt, Ne, ← UInt32.toNat_inj, next]
  change n.toNat + 1 < 128 ↔ ¬ n.toNat + 1 = 128
  omega

theorem upperOperand_lt (small : r.number.toNat < 128) :
    (upperOperand r).number < maxGrf ↔ ¬ (r.region.vertical ≠ 0 ∧ IsLast r) := by
  unfold upperOperand
  split
  · rename_i single
    simp only [single, ne_eq, not_true_eq_false, false_and, not_false_eq_true, iff_true]
    exact UInt32.lt_iff_toNat_lt.mpr small
  · rename_i row
    simp [row, next_lt small, IsLast]

/-- A sixteen-lane three-source command on a unit of eight lanes with an operand in the last register:
the destination, or a source that is a row. -/
def Overruns (g : Generation) (s : State) : Command → Prop
  | .ternary _ dst src0 src1 src2 =>
    s.execWidth = 16 ∧ g.supports .tripleSimd16 = false ∧
      (IsLast dst ∨ ∃ r ∈ [src0, src1, src2], r.region.vertical ≠ 0 ∧ IsLast r)
  | _ => False

/-- The first word of a three-source command stays in the register file, and the second one unless an
operand is in the last register. -/
theorem tripleWords_namesExisting {op : TernaryOp} {src2 : Register} {ws : List Word}
    (encoded : g.tripleWords s op.opcode dst src0 src1 src2 = .ok ws) :
    (∀ w ∈ ws.take 1, NamesExisting g.layout w) ∧
      ((∀ w ∈ ws, NamesExisting g.layout w) ↔ ¬ Overruns g s (.ternary op dst src0 src1 src2)) := by
  simp only [tripleWords, bind_ok] at encoded
  obtain ⟨w, encoded, halves⟩ := encoded
  have checked := encoded
  obtain ⟨-, -, -, -, -, -, -, -, checked, -⟩ := tripleWord_ok checked
  have small (r : Register) (member : r ∈ [dst, src0, src1, src2]) : r.number.toNat < 128 :=
    (checked r member).1
  have inside : ∀ r ∈ [dst, src0, src1, src2], r.number < maxGrf := fun r member =>
    UInt32.lt_iff_toNat_lt.mpr (small r member)
  obtain ⟨w₀, header, reading⟩ := tripleWord_begun encoded
  have triple : (tripleHeader g.layout w₀).opcode.isThreeSource = true := by
    have named : (tripleHeader g.layout w₀).opcode = op.opcode :=
      headerWord_opcode (by cases op <;> decide) header
    rw [named]
    cases op <;> rfl
  split at halves <;> rw [pure_ok] at halves <;> subst halves
  · rename_i narrow
    have lower := reading.lowerHalf.decodes triple
    have upper := (reading.upperHalf (small _ (by simp)) (small _ (by simp)) (small _ (by simp))
      (small _ (by simp))).decodes triple
    have first : NamesExisting g.layout (g.layout.lowerHalf w) :=
      (namesExisting_iff lower).mpr (readTriple_inFile.mpr inside)
    have second : NamesExisting g.layout (g.layout.upperHalf w) ↔
        ¬ Overruns g s (.ternary op dst src0 src1 src2) := by
      rw [namesExisting_iff upper, readTriple_inFile]
      simp [upperOperand_lt, small, next_lt, Overruns, narrow, IsLast]
    rw [List.forall_mem_cons, List.forall_mem_singleton, second]
    exact ⟨by simpa using first, and_iff_right first⟩
  · rename_i whole
    have existing : NamesExisting g.layout w :=
      (namesExisting_iff (reading.decodes triple)).mpr (readTriple_inFile.mpr inside)
    have within : ¬ Overruns g s (.ternary op dst src0 src1 src2) := fun overruns =>
      whole ⟨overruns.1, overruns.2.1⟩
    exact ⟨by simpa using existing, by simpa [within] using existing⟩

/-! ## Commands -/

variable {c : Command}

/-- Every command but a three-source one stays in the register file. -/
theorem assemble_namesExisting {ws : List Word}
    (other : ∀ op dst src0 src1 src2, c ≠ .ternary op dst src0 src1 src2)
    (made : g.assemble s c = .ok ws) : ∀ w ∈ ws, NamesExisting g.layout w := by
  have one {x : Except Diagnostic Word} (made : x.map ([·]) = .ok ws)
      (each : ∀ w, x = .ok w → NamesExisting g.layout w) : ∀ w ∈ ws, NamesExisting g.layout w := by
    obtain ⟨w, built, rfl⟩ := map_ok.mp made
    exact List.forall_mem_singleton.mpr (each w built)
  cases c with
  | unary op dst src =>
    exact one made fun w built => unaryWord_namesExisting (by cases op <;> decide) (by cases op <;> rfl)
      (by cases op <;> rfl) built
  | binary op dst src0 src1 =>
    exact one made fun w built => binaryWord_namesExisting (by cases op <;> decide) (by cases op <;> rfl) built
  | compare condition dst src0 src1 => exact one made fun w built => compareWord_namesExisting built
  | ternary op dst src0 src1 src2 => exact absurd rfl (other op dst src0 src1 src2)
  | nop => exact one made fun w built => headerWord_namesExisting (by decide) rfl rfl built
  | jump distance => exact one made fun w built => binaryWord_namesExisting (by decide) rfl built
  | wait => exact one made fun w built => unaryWord_namesExisting (by decide) rfl rfl built
  | send target dst payload d => exact one made fun w built => sendWord_namesExisting built
  | barrier payload => exact one made fun w built => sendWord_namesExisting built
  | fence dst payload flush => exact one made fun w built => sendWord_namesExisting built
  | flushSampler dst payload => exact one made fun w built => sendWord_namesExisting built
  | atomic function dst payload surface length =>
    refine one made fun w built => ?_
    unfold atomicWord at built
    split at built
    · cases built
    · exact sendWord_namesExisting built
  | untypedRead dst address surface elements =>
    refine one made fun w built => ?_
    obtain ⟨control, -, sent⟩ := bind_ok.mp built
    exact sendWord_namesExisting sent
  | untypedWrite payload surface elements =>
    refine one made fun w built => ?_
    obtain ⟨control, -, sent⟩ := bind_ok.mp built
    exact sendWord_namesExisting sent
  | scratchRead dst header offset registers =>
    refine one made fun w built => ?_
    obtain ⟨function, -, sent⟩ := bind_ok.mp built
    exact sendWord_namesExisting sent
  | scratchWrite header offset registers =>
    refine one made fun w built => ?_
    obtain ⟨function, -, sent⟩ := bind_ok.mp built
    exact sendWord_namesExisting sent
  | motion message dst payload surface =>
    refine one made fun w built => ?_
    obtain ⟨d, -, sent⟩ := Footprints.motionWord_sends built
    exact sendWord_namesExisting sent
  | endThread =>
    simp only [assemble, endThreadWords, bind_ok, pure_ok] at made
    obtain ⟨copy, copied, message, sent, rfl⟩ := made
    rw [List.forall_mem_cons, List.forall_mem_singleton]
    exact ⟨unaryWord_namesExisting (by decide) rfl rfl copied, sendWord_namesExisting sent⟩

theorem assemble_overruns {ws : List Word} (made : g.assemble s c = .ok ws) :
    (∀ w ∈ ws.take 1, NamesExisting g.layout w) ∧
      ((∀ w ∈ ws, NamesExisting g.layout w) ↔ ¬ Overruns g s c) := by
  by_cases triple : ∃ op dst src0 src1 src2, c = .ternary op dst src0 src1 src2
  · obtain ⟨op, dst, src0, src1, src2, rfl⟩ := triple
    exact tripleWords_namesExisting made
  · have existing := assemble_namesExisting
      (fun op dst src0 src1 src2 same => triple ⟨op, dst, src0, src1, src2, same⟩) made
    have within : ¬ Overruns g s c := by
      intro overruns
      unfold Overruns at overruns
      split at overruns
      · exact triple ⟨_, _, _, _, _, rfl⟩
      · exact overruns
    exact ⟨fun w member => existing w (List.mem_of_mem_take member), fun _ => within, fun _ => existing⟩

/-- The words of a command name existing registers only, unless the command is a three-source one that
is split and has an operand in the last register: the upper half then names the register after it. The
first word of a command always stays in the register file. -/
theorem issue_namesExisting (a : Assembler) (c : Command) :
    ∃ ws, (a.issue c).1.words = a.words ++ ws ∧ ((a.issue c).2 = none ↔ ws = []) ∧
      (∀ w ∈ ws.take 1, NamesExisting a.layout w) ∧
      ((∀ w ∈ ws, NamesExisting a.layout w) ↔
        ¬ ((a.issue c).2.isSome ∧ Overruns a.generation a.state c)) := by
  unfold Assembler.issue
  cases made : a.generation.assemble a.state c with
  | error d => exact ⟨[], by simp [Assembler.fail], by simp, by simp, by simp⟩
  | ok ws =>
    obtain ⟨first, all⟩ := assemble_overruns made
    exact ⟨ws, commitAll_words a ws, by simp [assemble_ne_nil made], first, by simpa [Assembler.layout] using all⟩

end

/-- Sixteen lanes on Ivy Bridge up to the last register: rows in r126 and r127, and one element of r127
for all lanes. -/
theorem issue_namesExisting_lastPair :
    let a : Assembler := { generation := .gen7, state := { execWidth := 16 } }
    let c := Command.ternary .mad (.vec16 126 0 .f) (.vec16 126 0 .f) (.vec1 127 4 .f) (.vec16 40 0 .f)
    (a.issue c).1.words.length = 2 ∧ ∀ w ∈ (a.issue c).1.words, NamesExisting a.layout w := by
  intro a c
  refine ⟨by decide +kernel, ?_⟩
  obtain ⟨ws, words, -, -, existing⟩ := issue_namesExisting a c
  have within : ¬ Overruns .gen7 a.state c := by
    rintro ⟨-, -, last | ⟨r, member, row, last⟩⟩
    · exact absurd last (by decide)
    · simp only [List.mem_cons, List.not_mem_nil, or_false] at member
      rcases member with rfl | rfl | rfl
      · exact absurd last (by decide)
      · exact absurd rfl row
      · exact absurd last (by decide)
  rw [words]
  exact existing.mpr fun overruns => within overruns.2

/-- A row in r127 is accepted, and the upper eight lanes go to a register 128 that does not exist. -/
theorem upperHalf_leaves_file :
    let a : Assembler := { generation := .gen7, state := { execWidth := 16 } }
    let c := Command.ternary .mad (.vec16 127 0 .f) (.vec16 10 0 .f) (.vec16 20 0 .f) (.vec16 30 0 .f)
    ∃ w ∈ (a.issue c).1.words, ∃ d, a.layout.decode w = .ok d ∧ d.dst.file = .grf ∧
      d.dst.indirect = none ∧ d.dst.number = 128 ∧ ¬ d.dst.number < maxGrf :=
  ⟨⟨0x801e00000060115b, 0x07c7202a3900b1c8⟩, by decide +kernel, _, rfl, rfl, rfl, rfl, by decide⟩

end GpuCodegen.ExistingRegisters
