import GpuCodegen.Proofs.StraightLine

/-! Emission of straight-line kernels. Every arithmetic instruction becomes one word that names the
bytes of its operands; two words end the thread, no fixup applies and there is no jump to resolve. -/

namespace GpuCodegen.StraightLine
open Native Generation Lanes Outcome WordRoundTrip

/-! ## Instructions -/

/-- The operand of a word for an operand of an instruction. -/
def located (offsets : RegisterMap) : Operand → Register
  | .register o => vectorAt (offsets.get o.reg) o.type
  | .immediate t bits _ _ => .imm t.dataType bits.toUInt32.toUInt64
  | .absent _ => .null

theorem placed_vector {a : Allocation} {o : RegisterOperand} {width : Int} {r : Register}
    (vector : IsVector o) (wide : width = 8 ∨ width = 16) (placed : Emission.placed a o width = .ok r) :
    r = vectorAt (a.offsets.get o.reg) o.type ∧ a.offsets.contains o.reg = true := by
  simp only [Emission.placed, Emission.placeOf, RegisterMap.lookup?, bind_ok, pure_ok] at placed
  obtain ⟨offset, found, rfl⟩ := placed
  split at found
  · rename_i x looked
    cases found
    split at looked
    · rename_i contained
      cases looked
      refine ⟨?_, contained⟩
      have size : o.type.size = 4 := by
        rcases vector.type with same | same <;> rw [same] <;> rfl
      have single : (width == 1) = false := by
        rcases wide with rfl | rfl <;> rfl
      have rows : min width ((32 / 4 : Nat) : Int) = 8 := by
        rcases wide with rfl | rfl <;> rfl
      have still : a.offsets.get o.reg + UInt32.ofInt (0 * (4 : Nat) * o.lanes width) =
          a.offsets.get o.reg := by
        have zero : UInt32.ofInt 0 = 0 := rfl
        simp [zero]
      simp only [vector.part, size, vector.vector, single, rows, still, vector.negate, vector.absolute,
        Bool.or_false, Bool.false_eq_true, if_false]
      rfl
    · cases looked
  · cases found

theorem operand_immediate {a : Allocation} {o : Operand} {width : Int} {r : Register}
    (immediate : IsImmediate o) (operand : Emission.operand a width o = .ok r) :
    r = located a.offsets o := by
  obtain ⟨t, bits, rfl, dwords⟩ := immediate
  rcases dwords with rfl | rfl <;> cases operand <;> rfl

theorem IsArithmetic.source_cases {width : Int} {i : Instruction} (arithmetic : IsArithmetic width i)
    {o : Operand} (member : o ∈ i.src) : (∃ x, o = .register x ∧ IsVector x) ∨ IsImmediate o := by
  obtain ⟨n, small, rfl⟩ := List.getElem_of_mem member
  rcases arithmetic.src n _ (List.getElem?_eq_getElem small) with vector | ⟨-, immediate⟩
  · exact .inl vector
  · exact .inr immediate

theorem operand_located {width w : Int} {i : Instruction} (arithmetic : IsArithmetic w i) {a : Allocation}
    {o : Operand} (wide : width = 8 ∨ width = 16) (member : o ∈ i.src ∨ o = i.dst) {r : Register}
    (operand : Emission.operand a width o = .ok r) :
    r = located a.offsets o ∧ ∀ x, o.names x = true → a.offsets.contains x = true := by
  have vector {x : RegisterOperand} (same : o = .register x) (plain : IsVector x) :
      r = located a.offsets o ∧ ∀ x, o.names x = true → a.offsets.contains x = true := by
    subst same
    obtain ⟨at_, contained⟩ := placed_vector plain wide operand
    refine ⟨at_, ?_⟩
    intro y names
    simp only [Operand.names, Operand.register?, plain.named, if_false, beq_iff_eq] at names
    exact names ▸ contained
  rcases member with source | rfl
  · rcases arithmetic.source_cases source with ⟨x, same, plain⟩ | immediate
    · exact vector same plain
    · refine ⟨operand_immediate immediate operand, ?_⟩
      obtain ⟨t, bits, rfl, -⟩ := immediate
      intro x names
      cases names
  · obtain ⟨d, same, plain⟩ := arithmetic.dst
    exact vector same plain

/-- The state arithmetic is issued under. -/
def plainState (width : Int) : State := { execWidth := width }

theorem plainState_fits (width : Int) : StateFits (plainState width) :=
  ⟨show (0 : UInt32).toNat < 4 by decide, show (0 : UInt32).toNat < 16 by decide⟩

/-- A word that computes an instruction on its operands' bytes. -/
structure Encodes (g : Generation) (offsets : RegisterMap) (width : Int) (i : Instruction) (w : Word)
    (d : Decoded) : Prop where
  decodes : g.layout.decode w = .ok d
  opcode : d.opcode = machineOp i.op
  always : d.predicate = 0
  lanes : d.execSize = width
  dst : d.dst = readDestination (located offsets i.dst)
  sources : d.sources = i.src.map fun o => readSource (plainState width) (located offsets o)
  placed : ∀ r, i.reads r = true ∨ i.writes r = true → offsets.contains r = true

theorem located_fits {width : Int} {i : Instruction} (arithmetic : IsArithmetic width i)
    (offsets : RegisterMap) {o : Operand} (member : o ∈ i.src ∨ o = i.dst) (f : Field) :
    Fits f (located offsets o) := by
  rcases member with source | rfl
  · rcases arithmetic.source_cases source with ⟨x, rfl, -⟩ | ⟨t, bits, rfl, -⟩
    · exact vectorAt_fits f _ _
    · constructor <;> simp [located, Register.imm] <;> decide
  · obtain ⟨d, same, -⟩ := arithmetic.dst
    rw [same]
    exact vectorAt_fits f _ _

/-- The command of an arithmetic instruction encodes to one word that computes it. -/
theorem assemble_encodes {g : Generation} {width : Int} {i : Instruction} {offsets : RegisterMap}
    (arithmetic : IsArithmetic width i) (count : Select.sourceCount? i.op = some i.src.length)
    (placed : ∀ r, i.reads r = true ∨ i.writes r = true → offsets.contains r = true) {ws : List Word}
    (encoded : g.assemble (plainState width)
      (Emission.aluCommand i (located offsets i.dst) (i.src.map (located offsets))) = .ok ws) :
    ∃ w d, ws = [w] ∧ Encodes g offsets width i w d := by
  have fitsDst := located_fits arithmetic offsets (.inr rfl) g.layout.dst.addressEntry
  have fits {o : Operand} (source : o ∈ i.src) :=
    located_fits arithmetic offsets (.inl source) g.layout.src0AddressEntry
  -- One source or two, by the operation.
  have unary (op : UnaryOp) (same : op.opcode = machineOp i.op) (one : i.src.length = 1)
      (encoded : g.assemble (plainState width) (.unary op (located offsets i.dst)
        ((i.src.map (located offsets)).getD 0 default)) = .ok ws) :
      ∃ w d, ws = [w] ∧ Encodes g offsets width i w d := by
    obtain ⟨o, single⟩ := List.length_eq_one_iff.mp one
    rw [single] at encoded
    obtain ⟨w, built, rfl⟩ := map_ok.mp encoded
    have decoded := unaryWord_decodes (plainState_fits width) (by cases op <;> decide)
      (by cases op <;> rfl) (by cases op <;> rfl) fitsDst (fits (by simp [single])) built
    exact ⟨w, _, rfl, decoded, same, rfl, rfl, rfl, by simp [single], placed⟩
  have binary (op : BinaryOp) (same : op.opcode = machineOp i.op) (two : i.src.length = 2)
      (encoded : g.assemble (plainState width) (.binary op (located offsets i.dst)
        ((i.src.map (located offsets)).getD 0 default)
        ((i.src.map (located offsets)).getD 1 default)) = .ok ws) :
      ∃ w d, ws = [w] ∧ Encodes g offsets width i w d := by
    obtain ⟨o, o', pair⟩ : ∃ o o', i.src = [o, o'] :=
      ⟨_, _, List.eq_getElem_of_length_eq_two i.src two⟩
    rw [pair] at encoded
    obtain ⟨w, built, rfl⟩ := map_ok.mp encoded
    have decoded := binaryWord_decodes (plainState_fits width) (by cases op <;> decide)
      (by cases op <;> rfl) (by cases op <;> rfl) (by cases op <;> decide) fitsDst
      (fits (by simp [pair])) (fits (by simp [pair])) built
    exact ⟨w, _, rfl, decoded, same, rfl, rfl, rfl, by simp [pair], placed⟩
  have known := arithmetic.op
  simp only [operations, List.mem_cons, List.not_mem_nil, or_false] at known
  rcases known with op | op | op | op | op | op | op | op | op | op <;>
    simp only [op, Select.sourceCount?, Option.some.injEq] at count <;>
    simp only [Emission.aluCommand, op] at encoded
  · exact unary .mov (by rw [op]; rfl) count.symm encoded
  · exact unary .not (by rw [op]; rfl) count.symm encoded
  · exact binary .add (by rw [op]; rfl) count.symm encoded
  · exact binary .mul (by rw [op]; rfl) count.symm encoded
  · exact binary .and (by rw [op]; rfl) count.symm encoded
  · exact binary .or (by rw [op]; rfl) count.symm encoded
  · exact binary .xor (by rw [op]; rfl) count.symm encoded
  · exact binary .shl (by rw [op]; rfl) count.symm encoded
  · exact binary .shr (by rw [op]; rfl) count.symm encoded
  · exact binary .asr (by rw [op]; rfl) count.symm encoded

theorem alu_located {a : Allocation} {width : Int} {i : Instruction} {issues : List Issue}
    (arithmetic : IsArithmetic width i) (wide : width = 8 ∨ width = 16)
    (emitted : Emission.alu a (plainState width) i width = .ok issues) :
    issues = [⟨plainState width,
        Emission.aluCommand i (located a.offsets i.dst) (i.src.map (located a.offsets))⟩] ∧
      ∀ r, i.reads r = true ∨ i.writes r = true → a.offsets.contains r = true := by
  simp only [Emission.alu, Emission.checked, bind_ok, mapError_ok] at emitted
  obtain ⟨src, sources, dst, destination, issued⟩ := emitted
  obtain ⟨d, register, vector⟩ := arithmetic.dst
  have target : Emission.operand a width i.dst = .ok dst := by
    rw [register] at destination ⊢
    exact destination
  obtain ⟨read, each⟩ := mapM_ok (fun o member r operand =>
    (operand_located arithmetic wide (.inl member) operand).1) sources
  obtain ⟨written, contained⟩ := operand_located arithmetic wide (.inr rfl) target
  have narrow : Emission.isWide i width = false := by
    have result : i.dst.type.is64 = false := by
      rw [register]
      exact (IsDword.not_int64 vector.type).2
    have operands : (i.src.any fun o => o.type.is64) = false := by
      rw [List.any_eq_false]
      intro o member
      rcases arithmetic.source_cases member with ⟨x, rfl, plain⟩ | ⟨t, bits, rfl, dwords⟩
      · simpa [Operand.type] using (IsDword.not_int64 plain.type).2
      · simpa [Operand.type] using (IsDword.not_int64 dwords).2
    simp [Emission.isWide, result, operands]
  rw [narrow, if_neg (by simp), pure_ok] at issued
  refine ⟨by rw [← issued, read, written], ?_⟩
  rintro r (reads | writes)
  · obtain ⟨o, member, names⟩ := List.any_eq_true.mp reads
    exact (operand_located arithmetic wide (.inl member) (each o member)).2 r names
  · exact contained r writes

theorem commitAll_keeps (a : Assembler) (ws : List Word) :
    (a.commitAll ws).error = a.error ∧ (a.commitAll ws).generation = a.generation := by
  induction ws generalizing a with
  | nil => exact ⟨rfl, rfl⟩
  | cons w ws ih => exact ih (a.commit w)

/-- A command that leaves no failure behind appended its words. -/
theorem run_clean {a : Assembler} {i : Issue} (clean : (a.run i).error = none) :
    ∃ ws, a.generation.assemble i.state i.command = .ok ws ∧ (a.run i).words = a.words ++ ws ∧
      (a.run i).generation = a.generation := by
  unfold Assembler.run Assembler.issue at clean ⊢
  cases encoded : a.generation.assemble i.state i.command with
  | error d =>
    rw [encoded] at clean
    cases before : a.error <;> simp [Assembler.fail, before] at clean
  | ok ws =>
    refine ⟨ws, rfl, ?_, ?_⟩
    · exact commitAll_words _ ws
    · exact (commitAll_keeps _ ws).2

theorem checkpoint_ok {m m' : Emitter} {position : Nat} (passed : m.checkpoint position = .ok m') :
    m' = m ∧ m.assembler.error = none := by
  unfold Emitter.checkpoint at passed
  split at passed
  · cases passed
  · rename_i clean
    cases passed
    exact ⟨rfl, clean⟩

/-- What emitting an instruction that is no label or jump grows. -/
structure Grows (m m' : Emitter) (ws : List Word) : Prop where
  words : m'.assembler.words = m.assembler.words ++ ws
  jumps : m'.jumps = m.jumps
  generation : m'.assembler.generation = m.assembler.generation

theorem step_single {f : Emission.Frame} {m m' : Emitter} {i : Instruction} {position : Nat} {issue : Issue}
    (plain : i.op ≠ .label ∧ i.op ≠ .jump) (single : ∀ issues, Emission.instruction f i = .ok issues →
      issues = [issue]) (stepped : Emitter.step f m (i, position) = .ok m') :
    (∃ issues, Emission.instruction f i = .ok issues) ∧
      ∃ ws, m.assembler.generation.assemble issue.state issue.command = .ok ws ∧ Grows m m' ws := by
  unfold Emitter.step at stepped
  simp only at stepped
  split at stepped
  · rename_i label
    exact absurd label plain.1
  · rename_i jump
    exact absurd jump plain.2
  · split at stepped
    · rename_i issues emitted
      refine ⟨⟨issues, emitted⟩, ?_⟩
      obtain ⟨rfl, clean⟩ := checkpoint_ok stepped
      rw [single issues emitted] at clean ⊢
      obtain ⟨ws, encoded, words, generation⟩ := run_clean clean
      exact ⟨ws, encoded, words, rfl, generation⟩
    · cases stepped

theorem instruction_arithmetic {f : Emission.Frame} {simd width : Int} {i : Instruction}
    (base : f.base = plainState simd) (arithmetic : IsArithmetic width i)
    (lanes : f.allocation.kernel.widthOf i = width) :
    Emission.instruction f i = Emission.alu f.allocation (plainState width) i width := by
  have known := arithmetic.op
  have state : Emission.instructionState f.base i width = plainState width := by
    have other : (i.op == .select) = false := by
      simp only [operations, List.mem_cons, List.not_mem_nil, or_false] at known
      rcases known with op | op | op | op | op | op | op | op | op | op <;> rw [op] <;> rfl
    simp [Emission.instructionState, base, arithmetic.unpredicated, other, plainState]
  simp only [operations, List.mem_cons, List.not_mem_nil, or_false] at known
  unfold Emission.instruction
  rcases known with op | op | op | op | op | op | op | op | op | op <;> simp only [op, lanes, state]

theorem step_arithmetic {f : Emission.Frame} {simd width : Int} {m m' : Emitter} {i : Instruction}
    {position : Nat} (base : f.base = plainState simd) (arithmetic : IsArithmetic width i)
    (lanes : f.allocation.kernel.widthOf i = width) (wide : width = 8 ∨ width = 16)
    (count : Select.sourceCount? i.op = some i.src.length)
    (stepped : Emitter.step f m (i, position) = .ok m') :
    ∃ w d, Grows m m' [w] ∧ Encodes m.assembler.generation f.allocation.offsets width i w d := by
  have plain : i.op ≠ .label ∧ i.op ≠ .jump := by
    have known := arithmetic.op
    constructor <;> intro op <;> rw [op] at known <;> revert known <;> decide
  have emission := instruction_arithmetic base arithmetic lanes
  obtain ⟨⟨issues, emitted⟩, ws, encoded, grows⟩ := step_single plain (fun issues emitted => by
    rw [emission] at emitted
    exact (alu_located arithmetic wide emitted).1) stepped
  rw [emission] at emitted
  obtain ⟨w, d, rfl, encodes⟩ := assemble_encodes arithmetic count (alu_located arithmetic wide emitted).2
    encoded
  exact ⟨w, d, grows, encodes⟩

/-- Emission of a run of arithmetic appends one word for each instruction. -/
theorem steps_arithmetic {f : Emission.Frame} {simd width : Int} (base : f.base = plainState simd)
    (wide : width = 8 ∨ width = 16) (entries : List (Instruction × Nat)) {m m' : Emitter}
    (arithmetic : ∀ e ∈ entries, IsArithmetic width e.1 ∧ f.allocation.kernel.widthOf e.1 = width ∧
      Select.sourceCount? e.1.op = some e.1.src.length)
    (ran : entries.foldlM (Emitter.step f) m = .ok m') :
    ∃ ws, Grows m m' ws ∧ ws.length = entries.length ∧
      ∀ (p : Nat) (e : Instruction × Nat), entries[p]? = some e → ∃ w d,
        ws[p]? = some w ∧ Encodes m.assembler.generation f.allocation.offsets width e.1 w d := by
  induction entries generalizing m with
  | nil =>
    rw [List.foldlM_nil, pure_ok] at ran
    subst ran
    exact ⟨[], ⟨by simp, rfl, rfl⟩, rfl, by simp⟩
  | cons e rest ih =>
    rw [List.foldlM_cons, bind_ok] at ran
    obtain ⟨t, first, others⟩ := ran
    obtain ⟨one, lanes, count⟩ := arithmetic e List.mem_cons_self
    obtain ⟨w, d, grows, encodes⟩ := step_arithmetic base one lanes wide count first
    obtain ⟨ws, more, length, each⟩ := ih (fun e member => arithmetic e (List.mem_cons_of_mem _ member)) others
    refine ⟨w :: ws, ⟨?_, more.jumps.trans grows.jumps, more.generation.trans grows.generation⟩,
      by simp [length], ?_⟩
    · rw [more.words, grows.words, List.append_assoc, List.singleton_append]
    · intro p x here
      cases p with
      | zero =>
        cases here
        exact ⟨w, d, rfl, encodes⟩
      | succ p =>
        rw [← grows.generation]
        exact each p x here

/-! ## The end of a thread -/

/-- The two words that end a thread: a copy of the thread's header and the message that carries it. -/
structure EndsThread (g : Generation) (copy message : Word) : Prop where
  copies : ∃ d, g.layout.decode copy = .ok d ∧ d.opcode = .mov
  sends : ∃ d, g.layout.decode message = .ok d ∧ d.opcode = .send ∧
    d.message.map Message.target = some .threadSpawner

theorem endThread_words {g : Generation} {s : State} {ws : List Word} (fits : StateFits (s.unmasked 8))
    (encoded : g.assemble s .endThread = .ok ws) :
    ∃ copy message, ws = [copy, message] ∧ EndsThread g copy message := by
  have vector (f : Field) (n : UInt32) : Fits f (.ud8 n 0) := by
    constructor <;> simp [Register.ud8, Register.vec8, Register.vec] <;> decide
  have null (f : Field) : Fits f .null := by
    constructor <;> simp [Register.null, Register.vec8, Register.vec] <;> decide
  simp only [assemble, endThreadWords, bind_ok, pure_ok] at encoded
  obtain ⟨copy, moved, message, sent, rfl⟩ := encoded
  have first := unaryWord_decodes fits (by decide) rfl rfl (vector _ _) (vector _ _) moved
  have second := sendWord_decodes fits (by decide) (by decide) (null _) (vector _ _) sent
  exact ⟨copy, message, rfl, ⟨_, first, rfl⟩, _, second, rfl, rfl⟩

theorem step_endThread {f : Emission.Frame} {simd : Int} {m m' : Emitter} {last : Instruction} {position : Nat}
    (base : f.base = plainState simd) (ends : last.op = .endThread)
    (stepped : Emitter.step f m (last, position) = .ok m') :
    ∃ copy message, Grows m m' [copy, message] ∧ EndsThread m.assembler.generation copy message := by
  have single (issues : List Issue) (emitted : Emission.instruction f last = .ok issues) :
      issues = [⟨Emission.instructionState f.base last (f.allocation.kernel.widthOf last), .endThread⟩] := by
    unfold Emission.instruction at emitted
    simp only [ends] at emitted
    exact (Except.ok.inj emitted).symm
  obtain ⟨-, ws, encoded, grows⟩ := step_single (by rw [ends]; decide) single stepped
  have fits : StateFits ((Emission.instructionState f.base last
      (f.allocation.kernel.widthOf last)).unmasked 8) := by
    rw [base]
    exact ⟨show (0 : UInt32).toNat < 4 by decide, show (0 : UInt32).toNat < 16 by decide⟩
  obtain ⟨copy, message, rfl, pair⟩ := endThread_words fits encoded
  exact ⟨copy, message, grows, pair⟩

/-! ## Fixups -/

theorem decode_opcode {l : Layout} {w : Word} {d : Decoded} (decoded : l.decode w = .ok d) :
    d.opcode = (l.decodeHeader w).opcode ∧
      (d.opcode = .send → d.message.map Message.target =
        some (.ofCode (l.header.condition.get w).toUInt8)) := by
  unfold Layout.decode at decoded
  simp only at decoded
  split at decoded
  · rename_i triple
    unfold Layout.decodeTriple at decoded
    simp only at decoded
    split at decoded
    · cases decoded
    · cases decoded
      refine ⟨rfl, fun send => ?_⟩
      change (l.decodeHeader w).opcode = .send at send
      rw [send] at triple
      cases triple
  · split at decoded
    · cases decoded
    · simp only [bind_ok] at decoded
      obtain ⟨dst, -, decoded⟩ := decoded
      by_cases none : (l.decodeHeader w).opcode.sources = 0
      · rw [if_pos none] at decoded
        cases decoded
        refine ⟨rfl, fun send => ?_⟩
        change (l.decodeHeader w).opcode = .send at send
        rw [send] at none
        cases none
      · simp only [if_neg none, bind_ok] at decoded
        obtain ⟨src0, -, decoded⟩ := decoded
        by_cases send : (l.decodeHeader w).opcode = .send
        · rw [if_pos send] at decoded
          cases decoded
          exact ⟨rfl, fun _ => rfl⟩
        · have opcode : d.opcode = (l.decodeHeader w).opcode := by
            rw [if_neg send] at decoded
            split at decoded
            · cases decoded
              rfl
            · rw [refuse_ok, bind_ok] at decoded
              obtain ⟨-, src1, -, whole⟩ := decoded
              cases whole
              rfl
          exact ⟨opcode, fun message => absurd (opcode.symm.trans message) send⟩

/-- A word that no fixup touches: neither a three-source operation nor a message to memory. -/
def Steady (g : Generation) (w : Word) : Prop :=
  ∃ d, g.layout.decode w = .ok d ∧ d.opcode.isThreeSource = false ∧
    (d.opcode = .send → d.message.map Message.target = some .threadSpawner)

theorem Steady.split {g : Generation} {w : Word} (steady : Steady g w) : Fixup.splitWord g w = [w] := by
  obtain ⟨d, decoded, plain, -⟩ := steady
  have opcode := (decode_opcode decoded).1
  have single : g.layout.split? w = none := by
    rw [opcode] at plain
    have narrow : g.layout.isWideTriple w = false := by
      simp only [Layout.isWideTriple, Bool.and_eq_false_iff]
      exact .inl plain
    simp [Layout.split?, narrow]
  unfold Fixup.splitWord
  split
  · rfl
  · rw [single]

theorem Steady.fence {g : Generation} {w : Word} (steady : Steady g w) (f : Word) :
    Fixup.fenceWord g f w = [w] := by
  obtain ⟨d, decoded, -, message⟩ := steady
  obtain ⟨opcode, target⟩ := decode_opcode decoded
  have quiet : g.writesMemory w = false := by
    by_cases send : d.opcode = .send
    · have spawner : SharedFunction.ofCode (g.layout.header.condition.get w).toUInt8 = .threadSpawner :=
        Option.some.inj ((target send).symm.trans (message send))
      have memory : (SharedFunction.threadSpawner == g.memoryFunction) = false := by
        unfold memoryFunction
        split <;> rfl
      have untyped : (SharedFunction.threadSpawner == g.untypedFunction) = false := by
        unfold untypedFunction
        split
        · rfl
        · split <;> rfl
      simp only [writesMemory, spawner, memory, untyped, Bool.or_false, Bool.and_false, Bool.false_and]
    · have other : (Native.Opcode.ofCode (g.layout.header.opcode.get w).toUInt8 == .send) = false := by
        rw [opcode] at send
        simpa [Layout.decodeHeader] using send
      simp only [writesMemory, other, Bool.false_and]
  simp [Fixup.fenceWord, quiet]

theorem replaceWords_steady {ws : List Word} {f : Word → List Word} {event : Nat → CompileEvent}
    (steady : ∀ w ∈ ws, f w = [w]) : (Fixup.replaceWords ws f event).words = ws := by
  have pieces : ws.map f = ws.map fun w => [w] := List.map_congr_left steady
  change (ws.map f).flatten = ws
  rw [pieces, ← List.flatMap_def, List.flatMap_singleton']

theorem apply_steady {g : Generation} {ws : List Word} (steady : ∀ w ∈ ws, Steady g w) (x : Fixup) :
    (x.apply g ws).words = ws := by
  cases x with
  | splitTriples => exact replaceWords_steady fun w member => (steady w member).split
  | fenceWrites =>
    simp only [Fixup.apply]
    cases Fixup.fence g with
    | ok f => exact replaceWords_steady fun w member => (steady w member).fence f
    | error d => rfl

theorem applyAll_steady {g : Generation} {ws : List Word} (steady : ∀ w ∈ ws, Steady g w)
    (fixups : List Fixup) : (Fixup.applyAll g fixups ws).words = ws := by
  have along (f : Fixed) (start : f.words = ws) : (fixups.foldl (Fixup.andThen g) f).words = ws := by
    induction fixups generalizing f with
    | nil => exact start
    | cons x rest ih =>
      apply ih
      rw [Fixup.andThen, start]
      exact apply_steady steady x
  exact along _ rfl

theorem Encodes.steady {g : Generation} {offsets : RegisterMap} {width : Int} {i : Instruction} {w : Word}
    {d : Decoded} (known : i.op ∈ operations) (encodes : Encodes g offsets width i w d) : Steady g w := by
  have plain : ∀ op ∈ operations, (machineOp op).isThreeSource = false ∧ machineOp op ≠ .send := by
    decide
  refine ⟨d, encodes.decodes, ?_, ?_⟩
  · rw [encodes.opcode]
    exact (plain i.op known).1
  · intro send
    exact absurd (encodes.opcode.symm.trans send) (plain i.op known).2

theorem EndsThread.steady {g : Generation} {copy message w : Word} (pair : EndsThread g copy message)
    (member : w ∈ [copy, message]) : Steady g w := by
  obtain ⟨⟨d, copies, mov⟩, d', messages, send, spawner⟩ := pair
  rcases List.mem_cons.mp member with rfl | last
  · exact ⟨d, copies, by rw [mov]; rfl, fun send => by rw [mov] at send; cases send⟩
  · rw [List.mem_singleton.mp last]
    exact ⟨d', messages, by rw [send]; rfl, fun _ => spawner⟩

/-! ## Programs -/

/-- The words of a straight-line kernel: one for each instruction, and two that end the thread. -/
structure Emits (g : Generation) (offsets : RegisterMap) (width : Int) (body : List Instruction)
    (words : List Word) : Prop where
  arithmetic : ∀ (p : Nat) (i : Instruction), body[p]? = some i →
    ∃ w d, words[p]? = some w ∧ Encodes g offsets width i w d
  ending : ∃ copy message, words.drop body.length = [copy, message] ∧ EndsThread g copy message

theorem Emits.steady {g : Generation} {offsets : RegisterMap} {width : Int} {body : List Instruction}
    {words : List Word} (emits : Emits g offsets width body words) (known : ∀ i ∈ body, i.op ∈ operations) :
    ∀ w ∈ words, Steady g w := by
  intro w member
  rw [← List.take_append_drop body.length words, List.mem_append] at member
  rcases member with early | late
  · obtain ⟨p, found⟩ := List.getElem?_of_mem early
    rw [List.getElem?_take] at found
    split at found
    · rename_i small
      have here : body[p]? = some (body.get ⟨p, small⟩) := List.getElem?_eq_getElem small
      obtain ⟨w', d, same, encodes⟩ := emits.arithmetic p _ here
      rw [found] at same
      cases same
      exact encodes.steady (known _ (List.mem_of_getElem? here))
    · cases found
  · obtain ⟨copy, message, rest, pair⟩ := emits.ending
    rw [rest] at late
    exact pair.steady late

/-- The words before the fixups: those of the arithmetic, then the end of the thread. -/
theorem steps_emits {f : Emission.Frame} {simd width : Int} {m m' : Emitter} {body : List Instruction}
    {last : Instruction} (base : f.base = plainState simd) (ends : last.op = .endThread)
    (wide : width = 8 ∨ width = 16)
    (arithmetic : ∀ i ∈ body, IsArithmetic width i ∧ f.allocation.kernel.widthOf i = width ∧
      Select.sourceCount? i.op = some i.src.length) (fresh : m.assembler.words = [])
    (ran : (body ++ [last]).zipIdx.foldlM (Emitter.step f) m = .ok m') :
    Emits m.assembler.generation f.allocation.offsets width body m'.assembler.words ∧ m'.jumps = m.jumps := by
  rw [List.zipIdx_append, List.foldlM_append, bind_ok] at ran
  obtain ⟨t, arithmeticRan, lastRan⟩ := ran
  obtain ⟨ws, first, length, each⟩ := steps_arithmetic base wide body.zipIdx
    (fun e member => arithmetic e.1 (List.fst_mem_of_mem_zipIdx member)) arithmeticRan
  rw [List.length_zipIdx] at length
  rw [List.zipIdx_singleton, List.foldlM_cons, bind_ok] at lastRan
  obtain ⟨t', ended, same⟩ := lastRan
  rw [List.foldlM_nil, pure_ok] at same
  subst same
  obtain ⟨copy, message, second, pair⟩ := step_endThread base ends ended
  rw [first.generation] at pair
  have written : t'.assembler.words = ws ++ [copy, message] := by
    rw [second.words, first.words, fresh, List.nil_append]
  refine ⟨⟨?_, copy, message, ?_, pair⟩, second.jumps.trans first.jumps⟩
  · intro p i here
    obtain ⟨w, d, found, encodes⟩ := each p (i, p) (by rw [List.getElem?_zipIdx, here]; simp)
    refine ⟨w, d, ?_, encodes⟩
    rw [written, List.getElem?_append_left (List.getElem?_eq_some_iff.mp found).1, found]
  · rw [written, ← length, List.drop_left]

/-- Emission is a run over the instructions, then the fixups, then the jumps. -/
theorem emit_run {c : Context} {a : Allocation} {words : List Word} {events : List CompileEvent}
    (emitted : c.emit a = .ok (words, events)) :
    ∃ m r final,
      a.kernel.code.zipIdx.foldlM (Emitter.step ⟨c.flavor, a, plainState c.simdWidth⟩)
        { assembler := { generation := c.generation, state := plainState c.simdWidth } } = .ok m ∧
      r = Fixup.applyAll c.generation (Fixup.ofFlavor c.flavor) m.assembler.words ∧
      m.jumps.foldlM (m.resolve r.remap) { m.assembler with words := r.words } = .ok final ∧
      final.words = words := by
  simp only [Context.emit, bind_ok, mapError_ok, refuse_ok] at emitted
  obtain ⟨assembler, fresh, m, ran, -, final, resolved, whole⟩ := emitted
  rw [pure_ok] at whole
  cases whole
  have empty : assembler = { generation := c.generation, state := plainState c.simdWidth } := by
    unfold Assembler.new at fresh
    split at fresh
    · cases fresh
      rfl
    · cases fresh
  subst empty
  exact ⟨m, _, final, ran, rfl, resolved, rfl⟩

theorem emit_emits {c : Context} {a : Allocation} {words : List Word} {events : List CompileEvent}
    {width : Int} {body : List Instruction} {last : Instruction} (code : a.kernel.code = body ++ [last])
    (ends : last.op = .endThread) (wide : width = 8 ∨ width = 16)
    (arithmetic : ∀ i ∈ body, IsArithmetic width i ∧ a.kernel.widthOf i = width ∧
      Select.sourceCount? i.op = some i.src.length)
    (emitted : c.emit a = .ok (words, events)) : Emits c.generation a.offsets width body words := by
  obtain ⟨m, r, final, ran, rfl, resolved, rfl⟩ := emit_run emitted
  rw [code] at ran
  obtain ⟨emits, jumpless⟩ := steps_emits (show _ = plainState c.simdWidth from rfl) ends wide arithmetic rfl ran
  rw [show m.jumps = [] from jumpless, List.foldlM_nil, pure_ok] at resolved
  have same : final.words = m.assembler.words := by
    rw [← resolved]
    exact applyAll_steady (emits.steady fun i member => (arithmetic i member).1.op) _
  rw [same]
  exact emits

end GpuCodegen.StraightLine
