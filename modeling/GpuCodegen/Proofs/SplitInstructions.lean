import GpuCodegen.Proofs.ProductBlocks
import GpuCodegen.Proofs.SlotAlignment
import GpuCodegen.Proofs.SplitCommands

/-! Instructions of sixteen lanes that are emitted as two words of eight. The second word reads after the first has
written, so an instruction comes out as one that reads all its sources before it writes if no source of it has its
upper lanes where its destination has the lower ones. -/

namespace GpuCodegen.SplitLanes
open Native WordRoundTrip Footprints Generation Outcome Placement LiveIntervals

/-! ## Emission -/

/-- The operations of the arithmetic unit. -/
def arithmeticOps : List Opcode :=
  [.mov, .not, .add, .mul, .and, .or, .xor, .shl, .shr, .asr, .select, .mad, .lrp, .compare]

/-- An instruction that is emitted in halves where it has sixteen lanes. -/
structure IsSplit (g : Generation) (i : Instruction) : Prop where
  arithmetic : i.op ∈ arithmeticOps
  split : Emission.isWide i 16 = true ∨ i.op.isThreeSource = true ∧ g.supports .tripleSimd16 = false

/-- The command of an instruction names the sources the instruction has. -/
theorem aluCommand_operands {i : Instruction} (dst : Register) {src : List Register} (listed : i.op ∈ arithmeticOps)
    (count : Select.sourceCount? i.op = some src.length) :
    IsArithmetic (Emission.aluCommand i dst src) ∧ operands (Emission.aluCommand i dst src) = dst :: src := by
  have one (length : src.length = 1) : src = [src.getD 0 default] := by
    obtain ⟨a, rfl⟩ := List.length_eq_one_iff.mp length
    rfl
  have two (length : src.length = 2) : src = [src.getD 0 default, src.getD 1 default] := by
    obtain ⟨a, b, rfl⟩ := List.length_eq_two.mp length
    rfl
  have three (length : src.length = 3) : src = [src.getD 0 default, src.getD 1 default, src.getD 2 default] := by
    obtain ⟨a, b, c, rfl⟩ := List.length_eq_three.mp length
    rfl
  unfold Emission.aluCommand
  simp only [arithmeticOps, List.mem_cons, List.not_mem_nil, or_false] at listed
  rcases listed with op | op | op | op | op | op | op | op | op | op | op | op | op | op <;> rw [op] at count ⊢ <;>
    refine ⟨trivial, ?_⟩ <;> simp only [Select.sourceCount?, Option.some.injEq] at count <;> simp only [operands] <;>
    first
      | exact congrArg (dst :: ·) (one count.symm).symm
      | exact congrArg (dst :: ·) (two count.symm).symm
      | exact congrArg (dst :: ·) (three count.symm).symm

/-- Two words that are the halves of a command. -/
def AreHalves (g : Generation) (s : State) (c : Command) (ws : List Word) : Prop :=
  ∃ d₀ d₁, ws.map g.layout.decode = [.ok d₀, .ok d₁] ∧ Halves (single s c) d₀ d₁ ∧ Undisturbed (single s c) d₀

theorem AreHalves.execute {g : Generation} {s : State} {c : Command} {ws : List Word} (halves : AreHalves g s c ws)
    (f : List UInt64 → UInt64) (m : Machine) : executeAll f g.layout m ws = some (execute f m (single s c)) := by
  obtain ⟨d₀, d₁, decoded, halves, undisturbed⟩ := halves
  rw [executeAll_decoded (show ws.map g.layout.decode = [d₀, d₁].map .ok from decoded), ← halves.execute undisturbed]
  rfl

theorem AreHalves.run {g : Generation} {s : State} {c : Command} {ws : List Word} (halves : AreHalves g s c ws)
    (m : Machine) : m.run g.layout ws = m.step (single s c) := by
  obtain ⟨d₀, d₁, decoded, halves, undisturbed⟩ := halves
  obtain ⟨w₀, w₁, rfl⟩ := List.length_eq_two.mp (show ws.length = 2 by rw [← List.length_map, decoded]; rfl)
  simp only [List.map_cons, List.map_nil, List.cons.injEq, and_true] at decoded
  obtain ⟨lower, upper⟩ := decoded
  rw [← halves.step undisturbed]
  simp [Machine.run, lower, upper, Except.toOption]

section
variable {g : Generation} {s : State} {low : Nat → Prop} {dst : Register} {src : List Register}

/-- The words of both quarters of a command. -/
theorem quarters_halves {c : Command} {ws₀ ws₁ : List Word} (state : StateFits s) (lanes : s.execWidth = 16)
    (first : s.quarter = 0) (arithmetic : IsArithmetic c) (named : operands c = dst :: src)
    (tame : ∀ r ∈ dst :: src, Tame r) (target : Target low dst) (feeds : ∀ r ∈ src, Feed low r)
    (lower : g.assemble (half s 0) (part 0 c) = .ok ws₀) (upper : g.assemble (half s 1) (part 1 c) = .ok ws₁) :
    AreHalves g s c (ws₀ ++ ws₁) := by
  have state' (q : Nat) (small : q < 2) : StateFits (half s q) := by
    refine ⟨?_, state.predicate⟩
    change (UInt32.ofNat q).toNat < 4
    rw [UInt32.toNat_ofNat']
    omega
  have tame' (q : Nat) : ∀ r ∈ operands (part q c), Tame r := by
    rw [operands_part q arithmetic, named]
    intro r member
    obtain ⟨r', listed, rfl⟩ := List.mem_map.mp member
    exact tame_quarter (tame r' listed) q
  have eight : (8 : Int) ≠ 16 := by decide
  have decoded := assemble_single (state' 0 (by decide)) (part_arithmetic 0 arithmetic) (tame' 0) eight lower
  have decoded' := assemble_single (state' 1 (by decide)) (part_arithmetic 1 arithmetic) (tame' 1) eight upper
  refine ⟨_, _, by rw [List.map_append, decoded, decoded']; rfl, ?_⟩
  cases c with
  | unary op d r =>
    cases named
    exact plain_halves lanes first target feeds
  | binary op d r r' | compare condition d r r' =>
    cases named
    exact plain_halves lanes first target feeds
  | ternary op d r r' r'' =>
    cases named
    simp only [part, quarter_zero] at lower
    obtain ⟨w, encoded, -⟩ := bind_ok.mp lower
    exact triple_halves (tripleWord_operands encoded).1 target feeds lanes first
  | _ => exact arithmetic.elim

/-- The words of a three-source command where the unit has eight lanes. -/
theorem words_halves {op : TernaryOp} {src0 src1 src2 : Register} {ws : List Word} (state : StateFits s)
    (lanes : s.execWidth = 16) (first : s.quarter = 0) (target : Target low dst)
    (feeds : ∀ r ∈ [src0, src1, src2], Feed low r) (small : ∀ r ∈ [dst, src0], r.file = .grf → r.type.size ≤ 4)
    (narrow : g.supports .tripleSimd16 = false) (made : g.assemble s (.ternary op dst src0 src1 src2) = .ok ws) :
    AreHalves g s (.ternary op dst src0 src1 src2) ws := by
  obtain ⟨w, encoded, -⟩ := bind_ok.mp made
  obtain ⟨triple, sizeDst, size⟩ := tripleWord_operands encoded
  have decoded := assemble_decodes state (c := .ternary op dst src0 src1 src2) trivial made
  rw [readCommand, readTriples, if_pos ⟨lanes, narrow⟩] at decoded
  have most := small dst (by simp) triple.target
  have most' := small src0 (by simp) (triple.sources src0 (by simp)).1
  exact ⟨_, _, decoded, word_halves triple target feeds lanes first (by omega) (by omega)⟩

end

/-- The commands of a split instruction: two quarters, or one command that is split later. -/
theorem alu_split {g : Generation} {a : Allocation} {s : State} {i : Instruction} {issues : List Issue}
    {src : List Register} {dst : Register} (split : IsSplit g i)
    (sources : i.src.mapM (Emission.operand a 16) = .ok src)
    (target : Emission.destination a 16 (Emission.resultType i) i.dst = .ok dst)
    (emitted : Emission.alu a s i 16 = .ok issues) :
    Emission.isWide i 16 = true ∧
        issues = [⟨half s 0, part 0 (Emission.aluCommand i dst src)⟩,
          ⟨half s 1, part 1 (Emission.aluCommand i dst src)⟩] ∨
      Emission.isWide i 16 = false ∧ i.op.isThreeSource = true ∧ g.supports .tripleSimd16 = false ∧
        issues = [⟨s, Emission.aluCommand i dst src⟩] := by
  simp only [Emission.alu, Emission.checked, sources, target, bind_ok, mapError_ok] at emitted
  obtain ⟨_, same, _, same', emitted⟩ := emitted
  cases same
  cases same'
  by_cases wide : Emission.isWide i 16 = true
  · rw [if_pos wide, pure_ok] at emitted
    subst emitted
    refine .inl ⟨wide, ?_⟩
    rw [← aluCommand_part, ← aluCommand_part]
    rfl
  · rw [if_neg wide, pure_ok] at emitted
    rw [Bool.not_eq_true] at wide
    have triple := split.split.resolve_left (by rw [wide]; decide)
    exact .inr ⟨wide, triple.1, triple.2, emitted.symm⟩

/-! ## Operands in their registers -/

/-- An operand of sixteen lanes lies in the bytes its register has for it. -/
structure Contained (x : RegisterOperand) : Prop where
  named : x.reg ≠ VReg.none
  part : 0 ≤ x.part
  room : (x.part + 1) * partBytes x 16 ≤ (x.storage 16).toNat

/-- Where the upper lanes of a source begin, counted from its register. -/
def upperStart (y : RegisterOperand) : Int := y.part * partBytes y 16 + if y.scalar then 0 else 8 * y.type.size

/-- The bytes the upper lanes of a source take. A scalar is read by all lanes. -/
def upperBytes (y : RegisterOperand) : Int := (if y.scalar then 1 else 8) * y.type.size

/-- The upper lanes of a source and the lower lanes of a vector of the same register have no byte in common. -/
def UpperApart (d y : RegisterOperand) : Prop :=
  d.part * partBytes d 16 + 8 * d.type.size ≤ upperStart y ∨ upperStart y + upperBytes y ≤ d.part * partBytes d 16

/-- Lanes that read where they write do not meet. -/
theorem upperApart_aligned {d y : RegisterOperand} (vectors : d.scalar = false ∧ y.scalar = false)
    (size : y.type.size = d.type.size) (part : y.part = d.part) : UpperApart d y := by
  left
  simp [upperStart, partBytes, RegisterOperand.lanes, vectors, size, part]

section
variable {a : Allocation} {x : RegisterOperand} {offset : UInt32} {r : Register}

/-- The bytes between neighbouring lanes. -/
def laneStep (x : RegisterOperand) : Nat := if x.scalar then 0 else x.type.size

theorem base_eq (offset : UInt32) (part : 0 ≤ x.part) :
    (base x 16 offset : Int) = offset.toNat + x.part * partBytes x 16 := by
  have nonneg := Int.mul_nonneg part (partBytes_nonneg x (show (0 : Int) ≤ 16 by decide))
  unfold base
  omega

theorem partBytes_sixteen (x : RegisterOperand) :
    partBytes x 16 = if x.scalar then (x.type.size : Int) else 16 * x.type.size := by
  unfold partBytes RegisterOperand.lanes
  split <;> omega

/-- What an operand covers ends where its register does at the latest. -/
theorem Contained.ends (contained : Contained x) :
    x.part * partBytes x 16 + partBytes x 16 ≤ (x.storage 16).toNat := by
  have room := contained.room
  rwa [Int.add_mul, Int.one_mul] at room

theorem Contained.row (contained : Contained x) (found : a.offsets.lookup? x.reg = some offset)
    (ends : offset.toNat + (x.storage 16).toNat < 4294967296) (placed : Emission.placed a x 16 = .ok r) :
    Row r (base x 16 offset) (laneStep x) ∧ r.type = x.type.dataType ∧
      base x 16 offset + 8 * laneStep x < 4294967296 := by
  have room := contained.ends
  have nonneg := partBytes_nonneg x (show (0 : Int) ≤ 16 by decide)
  obtain ⟨place, -, type, region⟩ := placed_at found (by decide) contained.part (by omega) placed
  have start := base_eq offset contained.part
  have bytes := partBytes_sixteen x
  refine ⟨⟨place, ?_⟩, type, ?_⟩
  · rw [region, type, dataType_size, placedRegion, laneStep]
    cases scalar : x.scalar
    · refine .inl ⟨?_, rfl⟩
      cases x.type <;> first
        | exact ⟨16, .inr (.inr rfl), rfl⟩
        | exact ⟨8, .inr (.inl rfl), rfl⟩
        | exact ⟨4, .inl rfl, rfl⟩
    · exact .inr ⟨rfl, rfl⟩
  · unfold laneStep
    cases scalar : x.scalar <;> simp only [scalar, Bool.false_eq_true, if_false, if_true] at bytes ⊢ <;> omega

/-- A lane of the upper half of a source lies in the bytes of the upper lanes. -/
theorem Contained.upper_lane (contained : Contained x) {lane b : Nat} (inside : lane < 8)
    (above : base x 16 offset + (8 + lane) * laneStep x ≤ b)
    (below : b < base x 16 offset + (8 + lane) * laneStep x + x.type.size) :
    offset.toNat + upperStart x ≤ b ∧ (b : Int) < offset.toNat + upperStart x + upperBytes x := by
  have start := base_eq offset contained.part
  unfold laneStep at above below
  unfold upperStart upperBytes
  cases scalar : x.scalar <;> simp only [scalar, Bool.false_eq_true, if_false, if_true] at above below ⊢
  · have least : 8 * x.type.size ≤ (8 + lane) * x.type.size := Nat.mul_le_mul_right _ (by omega)
    have most : (8 + lane + 1) * x.type.size ≤ 16 * x.type.size := Nat.mul_le_mul_right _ (by omega)
    rw [Nat.succ_mul] at most
    omega
  · omega

theorem Contained.upper_ends (contained : Contained x) :
    0 ≤ upperStart x ∧ upperStart x + upperBytes x ≤ (x.storage 16).toNat := by
  have nonneg := Int.mul_nonneg contained.part (partBytes_nonneg x (show (0 : Int) ≤ 16 by decide))
  have room := contained.ends
  have bytes := partBytes_sixteen x
  unfold upperStart upperBytes
  cases scalar : x.scalar <;> simp only [scalar, Bool.false_eq_true, if_false, if_true] at bytes ⊢ <;> omega

end

/-- The registers of a sweep end before the last address. -/
theorem run_ends {k : Kernel} {cfg : SweepConfig} {reserve scratch : UInt32} {s : Sweep}
    (sums : SumsFit k cfg reserve) (ran : Sweep.run k (Liveness.ofKernel k) cfg reserve scratch = .ok s) {x : Access}
    {offset : UInt32} (access : x ∈ accesses k) (found : s.offsets.lookup? x.operand.reg = some offset) :
    offset.toNat + (x.operand.storage (k.widthOf x.instruction)).toNat < 4294967296 := by
  obtain ⟨n, live, reg, -⟩ := StraightLine.live_of_access access
  have room := Products.storage_le_slot sums.slot access live reg
  rw [← reg, RegisterMap.lookup?] at found
  split at found
  · rename_i contained
    have placed : place k s n = offset := Option.some.inj found
    have mapped : Mapped k s n := by simpa [Mapped, place, RegisterMap.contains] using contained
    have ends := run_slot_ends sums ran live mapped
    rw [placed] at ends
    omega
  · cases found

/-! ## Instructions -/

/-- The instruction as one word holds it, on all its lanes. -/
def undivided (a : Allocation) (simd : Int) (i : Instruction) : Except Diagnostic Decoded := do
  let src ← i.src.mapM (Emission.operand a 16)
  let dst ← Emission.destination a 16 (Emission.resultType i) i.dst
  return single (Emission.instructionState (StraightLine.plainState simd) i 16) (Emission.aluCommand i dst src)

/-- No source has its upper lanes where the destination, a vector, has its lower ones. -/
structure Unharmed (i : Instruction) : Prop where
  target : ∀ d, i.dst = .register d → d.scalar = false ∧ Contained d
  present : ∀ o ∈ i.src, o.isAbsent = false
  contained : ∀ y, .register y ∈ i.src → Contained y
  apart : ∀ d y, i.dst = .register d → .register y ∈ i.src → y.reg = d.reg → UpperApart d y

theorem instruction_alu {f : Emission.Frame} {i : Instruction} (listed : i.op ∈ arithmeticOps) :
    Emission.instruction f i = Emission.alu f.allocation
      (Emission.instructionState f.base i (f.allocation.kernel.widthOf i)) i (f.allocation.kernel.widthOf i) := by
  simp only [arithmeticOps, List.mem_cons, List.not_mem_nil, or_false] at listed
  unfold Emission.instruction
  rcases listed with op | op | op | op | op | op | op | op | op | op | op | op | op | op <;> rw [op]

/-- A general register without qwords. -/
theorem narrow_operand {a : Allocation} {o : Operand} {r : Register} (made : Emission.operand a 16 o = .ok r)
    (narrow : o.type.is64 = false) (file : r.file = .grf) : r.type.size ≤ 4 := by
  cases o with
  | absent t =>
    cases made
    cases file
  | immediate t bits negate absolute =>
    change Emission.immediate t bits negate = .ok r at made
    cases t <;> cases made <;> cases file
  | register x =>
    rw [(placed_found made).2, dataType_size]
    revert narrow
    change x.type.is64 = false → _
    cases x.type <;> decide

/-- The bytes of the lower lanes of a destination. -/
def lowerLanes (a : Allocation) (i : Instruction) (b : Nat) : Prop :=
  ∃ d offset, i.dst = .register d ∧ a.offsets.lookup? d.reg = some offset ∧ base d 16 offset ≤ b ∧
    b < base d 16 offset + 8 * d.type.size

section
variable {a : Allocation} {i : Instruction}

theorem destination_target {r : Register} {t : Element}
    (ends : ∀ x ∈ i.registers, ∀ offset, a.offsets.lookup? x.reg = some offset →
      offset.toNat + (x.storage 16).toNat < 4294967296)
    (unharmed : Unharmed i) (made : Emission.destination a 16 t i.dst = .ok r) : Target (lowerLanes a i) r := by
  cases dst : i.dst with
  | absent =>
    rw [dst] at made
    cases made
    exact .dropped (show RegFile.arf ≠ .grf by decide) (fun _ => show (0 : UInt32) ≠ 0x10 by decide) rfl
  | immediate t bits negate absolute =>
    rw [dst] at made
    change Emission.immediate t bits negate = .ok r at made
    have file : r.file = .imm ∧ r.indirect = none := by
      cases t <;> first | cases made; exact ⟨rfl, rfl⟩ | cases made
    exact .dropped (by rw [file.1]; decide) (fun arf => by rw [file.1] at arf; cases arf) file.2
  | register d =>
    rw [dst] at made
    obtain ⟨vector, contained⟩ := unharmed.target d dst
    obtain ⟨⟨offset, found⟩, -⟩ := placed_found made
    have member : d ∈ i.registers :=
      List.mem_append_left _ (Option.mem_toList.mpr (by rw [dst]; exact if_neg contained.named))
    obtain ⟨row, type, small⟩ := contained.row found (ends d member offset found) made
    have size : r.type.size = d.type.size := by rw [type, dataType_size]
    have step : laneStep d = r.type.size := by rw [laneStep, vector, size]; rfl
    rw [step] at row small
    refine .register _ row ?_ small fun b above below => ⟨d, offset, dst, found, above, size ▸ below⟩
    rcases row.region with ⟨rows, -⟩ | ⟨-, zero⟩
    · exact rows
    · exfalso
      rw [size] at zero
      revert zero
      cases d.type <;> decide

theorem operand_feed {r : Register} {o : Operand}
    (ends : ∀ x ∈ i.registers, ∀ offset, a.offsets.lookup? x.reg = some offset →
      offset.toNat + (x.storage 16).toNat < 4294967296)
    (apart : ∀ x ∈ i.registers, ∀ y ∈ i.registers, x.reg ≠ y.reg → ∀ offset offset' : UInt32,
      a.offsets.lookup? x.reg = some offset → a.offsets.lookup? y.reg = some offset' →
        offset.toNat + (x.storage 16).toNat ≤ offset'.toNat ∨ offset'.toNat + (y.storage 16).toNat ≤ offset.toNat)
    (unharmed : Unharmed i) (member : o ∈ i.src) (made : Emission.operand a 16 o = .ok r) :
    Feed (lowerLanes a i) r := by
  cases o with
  | absent t =>
    have present := unharmed.present _ member
    cases present
  | immediate t bits negate absolute =>
    change Emission.immediate t bits negate = .ok r at made
    have immediate : r.file = .imm ∧ r.type ≠ .v := by
      cases t <;> first | cases made; exact ⟨rfl, nofun⟩ | cases made
    exact .immediate immediate.1 immediate.2
  | register y =>
    have contained := unharmed.contained y member
    have read : y ∈ i.registers :=
      List.mem_append_right _ (List.mem_filterMap.mpr ⟨_, member, if_neg contained.named⟩)
    obtain ⟨⟨offset, found⟩, -⟩ := placed_found made
    obtain ⟨row, type, small⟩ := contained.row found (ends y read offset found) made
    refine .register _ _ row small fun lane inside b above below => ?_
    rw [type, dataType_size] at below
    obtain ⟨upper, upper'⟩ := contained.upper_lane inside above below
    rintro ⟨d, offset', dst, found', low, low'⟩
    obtain ⟨vector, containedD⟩ := unharmed.target d dst
    have start := base_eq offset' containedD.part
    have bytes := partBytes_sixteen d
    rw [vector] at bytes
    simp only [Bool.false_eq_true, if_false] at bytes
    by_cases same : y.reg = d.reg
    · rw [same, found'] at found
      cases found
      have away := unharmed.apart d y dst member same
      unfold UpperApart at away
      omega
    · have written : d ∈ i.registers :=
        List.mem_append_left _ (Option.mem_toList.mpr (by rw [dst]; exact if_neg containedD.named))
      have away := apart y read d written same offset offset' found found'
      have room := contained.upper_ends
      have room' := containedD.ends
      have nonneg := Int.mul_nonneg containedD.part (partBytes_nonneg d (show (0 : Int) ≤ 16 by decide))
      omega

end

/-- The operands of a three-source instruction that is not split into quarters. -/
theorem narrow_triple {a : Allocation} {i : Instruction} {dst : Register} {src : List Register} {t : Element}
    (narrow : Emission.isWide i 16 = false) (sources : i.src.mapM (Emission.operand a 16) = .ok src)
    (target : Emission.destination a 16 t i.dst = .ok dst) :
    ∀ r ∈ dst :: src, r.file = .grf → r.type.size ≤ 4 := by
  simp only [Emission.isWide, show decide ((8 : Int) < 16) = true by decide, Bool.true_and, Bool.or_eq_false_iff,
    Bool.and_eq_false_iff, Bool.not_eq_false', List.any_eq_false, Bool.not_eq_true] at narrow
  obtain ⟨narrowDst, narrowSrc⟩ := narrow
  rw [List.forall_mem_cons]
  refine ⟨fun file => ?_, fun r member => ?_⟩
  · cases written : i.dst with
    | absent =>
      rw [written] at target
      cases target
      cases file
    | immediate t bits negate absolute =>
      rw [written] at target narrowDst
      have made : Emission.operand a 16 (.immediate t bits negate absolute) = .ok dst := target
      exact narrow_operand made (narrowDst.resolve_left nofun) file
    | register d =>
      rw [written] at target narrowDst
      have made : Emission.operand a 16 (.register d) = .ok dst := target
      exact narrow_operand made (narrowDst.resolve_left nofun) file
  · obtain ⟨p, small, rfl⟩ := List.getElem_of_mem member
    obtain ⟨length, each⟩ := List.forall₂_iff_get.mp (mapM_forall sources)
    exact narrow_operand (each p (length ▸ small) small) (narrowSrc _ (List.getElem_mem (length ▸ small)))

/-- The words of a three-source instruction that is not split into quarters. -/
theorem triple_halves_of {g : Generation} {s : State} {low : Nat → Prop} {i : Instruction} {dst : Register}
    {src : List Register} {ws : List Word} (state : StateFits s) (lanes : s.execWidth = 16) (first : s.quarter = 0)
    (triple : i.op.isThreeSource = true) (count : Select.sourceCount? i.op = some src.length) (target : Target low dst)
    (feeds : ∀ r ∈ src, Feed low r) (small : ∀ r ∈ dst :: src, r.file = .grf → r.type.size ≤ 4)
    (narrow : g.supports .tripleSimd16 = false) (made : g.assemble s (Emission.aluCommand i dst src) = .ok ws) :
    AreHalves g s (Emission.aluCommand i dst src) ws := by
  simp only [Opcode.isThreeSource, Bool.or_eq_true, beq_iff_eq] at triple
  have three : src.length = 3 := by
    rcases triple with op | op <;> rw [op] at count <;> exact (Option.some.inj count).symm
  obtain ⟨src0, src1, src2, rfl⟩ := List.length_eq_three.mp three
  obtain ⟨op, command⟩ : ∃ op, Emission.aluCommand i dst [src0, src1, src2] = .ternary op dst src0 src1 src2 := by
    unfold Emission.aluCommand
    rcases triple with op | op <;> rw [op] <;> exact ⟨_, rfl⟩
  rw [command] at made ⊢
  refine words_halves state lanes first target feeds (fun r member => small r ?_) narrow made
  simp only [List.mem_cons, List.not_mem_nil, or_false] at member ⊢
  tauto

/-- The two words an instruction of sixteen lanes is emitted as leave what the instruction leaves that reads all its
sources before it writes, whatever its lanes make of the values they read. The machine runs them as one step. -/
theorem split_faithful (g : Generation) (flavor : Flavor) (k : Kernel) (cfg : SweepConfig) (a : Allocation)
    (log : List AllocationEvent) (simd : Int) (n : Nat) (i : Instruction) (words : List Word)
    (allocated : Allocation.ofKernel k cfg = .ok (a, log))
    (sums : ∀ reserve, Reserved k cfg reserve → SumsFit a.kernel cfg reserve)
    (pins : ∀ reserve, Reserved k cfg reserve → PinsAside a.kernel cfg reserve) (here : a.kernel.code[n]? = some i)
    (sixteen : a.kernel.widthOf i = 16) (split : IsSplit g i) (accepted : Select.sourceCount? i.op = some i.src.length)
    (unharmed : Unharmed i) (made : Branches.encoded g ⟨flavor, a, StraightLine.plainState simd⟩ i = .ok words) :
    words.length = 2 ∧ ∃ d, undivided a simd i = .ok d ∧
      (∀ f m, executeAll f g.layout m words = some (execute f m d)) ∧
      ∀ m : Machine, m.run g.layout words = m.step d := by
  have other (op : Opcode) (unlisted : op ∉ arithmeticOps) : i.op ≠ op := fun same => unlisted (same ▸ split.arithmetic)
  obtain ⟨issues, pieces, emitted, assembled, rfl⟩ :=
    Products.encoded_ok (other .label (by decide)) (other .jump (by decide)) made
  rw [instruction_alu split.arithmetic] at emitted
  dsimp only at emitted
  rw [sixteen] at emitted
  have operands_ := emitted
  simp only [Emission.alu, Emission.checked, bind_ok, mapError_ok] at operands_
  obtain ⟨src, sources, dst, target, -⟩ := operands_
  -- Registers lie in the file, and those of other operands apart.
  have ends : ∀ x ∈ i.registers, ∀ offset, a.offsets.lookup? x.reg = some offset →
      offset.toNat + (x.storage 16).toNat < 4294967296 := by
    intro x member offset found
    obtain ⟨reserve, _, s, reserved, ran, offsets⟩ := ofKernel_run allocated
    have access : (⟨n, i, x⟩ : Access) ∈ accesses a.kernel := mem_accesses.mpr ⟨here, member⟩
    rw [show a.offsets = s.offsets from offsets] at found
    rw [← sixteen]
    -- Elaborated on its own, as in `Allotted.apart_at`.
    have bounded := run_ends (sums reserve reserved) ran access found
    exact bounded
  have apart : ∀ x ∈ i.registers, ∀ y ∈ i.registers, x.reg ≠ y.reg → ∀ offset offset' : UInt32,
      a.offsets.lookup? x.reg = some offset → a.offsets.lookup? y.reg = some offset' →
        offset.toNat + (x.storage 16).toNat ≤ offset'.toNat ∨ offset'.toNat + (y.storage 16).toNat ≤ offset.toNat := by
    intro x memberX y memberY differ offset offset' found found'
    have held {r : VReg} {offset : UInt32} (found : a.offsets.lookup? r = some offset) :
        a.offsets.contains r = true ∧ a.offsets.get r = offset := by
      unfold RegisterMap.lookup? at found
      split at found
      · exact ⟨‹_›, Option.some.inj found⟩
      · cases found
    have away := (Products.ofKernel_allotted flavor simd allocated sums pins).apart_at here memberX memberY differ
      (held found).1 (held found').1
    unfold Products.rowOf at away
    dsimp only at away
    rwa [(held found).2, (held found').2, sixteen] at away
  have aimed := destination_target ends unharmed target
  have stand := mapM_forall sources
  have feeds : ∀ r ∈ src, Feed (lowerLanes a i) r := by
    intro r member
    obtain ⟨p, small, rfl⟩ := List.getElem_of_mem member
    obtain ⟨length, each⟩ := List.forall₂_iff_get.mp stand
    exact operand_feed ends apart unharmed (List.getElem_mem (length ▸ small)) (each p (length ▸ small) small)
  have tame : ∀ r ∈ dst :: src, Tame r :=
    List.forall_mem_cons.mpr ⟨destination_tame target, operands_tame sources⟩
  have state : StateFits (Emission.instructionState (StraightLine.plainState simd) i 16) := by
    refine ⟨show (0 : UInt32).toNat < 4 by decide, ?_⟩
    change (if (i.predicated || i.op == .select) = true then (1 : UInt32) else 0).toNat < 16
    split <;> decide
  obtain ⟨arithmetic, named⟩ := aluCommand_operands dst split.arithmetic
    (accepted.trans (congrArg some stand.length_eq))
  have halves : AreHalves g (Emission.instructionState (StraightLine.plainState simd) i 16)
      (Emission.aluCommand i dst src) pieces.flatten := by
    rcases alu_split split sources target emitted with ⟨-, rfl⟩ | ⟨narrow, triple, lacking, rfl⟩
    · simp only [List.mapM_cons, List.mapM_nil, bind_ok, pure_ok] at assembled
      obtain ⟨lower, first, _, ⟨upper, second, _, rfl, rfl⟩, rfl⟩ := assembled
      simp only [List.flatten_cons, List.flatten_nil, List.append_nil]
      exact quarters_halves state rfl rfl arithmetic named tame aimed feeds first second
    · simp only [List.mapM_cons, List.mapM_nil, bind_ok, pure_ok] at assembled
      obtain ⟨whole, first, _, rfl, rfl⟩ := assembled
      simp only [List.flatten_cons, List.flatten_nil, List.append_nil]
      exact triple_halves_of state rfl rfl triple (accepted.trans (congrArg some stand.length_eq)) aimed feeds
        (narrow_triple narrow sources target) lacking first
  refine ⟨?_, _, ?_, halves.execute, halves.run⟩
  · obtain ⟨d₀, d₁, decoded, -⟩ := halves
    rw [← List.length_map, decoded]
    rfl
  · simp only [undivided, sources, target]
    rfl

/-- A sum into a register that is also a source, lane by lane, with a scalar of another register. -/
def accumulated : Kernel where
  name := "accumulated"
  simdWidth := 16
  next := 2
  code :=
    [{ op := .add, dst := .vector ⟨0⟩ .ul, src := [.vector ⟨0⟩ .ul, .scalar ⟨1⟩ .ul], predicated := true },
      { op := .endThread }]

theorem accumulated_unharmed : Unharmed
    { op := .add, dst := .vector ⟨0⟩ .ul, src := [.vector ⟨0⟩ .ul, .scalar ⟨1⟩ .ul], predicated := true } := by
  have vector : Contained { reg := ⟨0⟩, type := .ul } := ⟨by decide, by decide, by decide⟩
  have scalar : Contained { reg := ⟨1⟩, type := .ul, scalar := true } := ⟨by decide, by decide, by decide⟩
  refine ⟨?_, by decide, ?_, ?_⟩
  · rintro d ⟨⟩
    exact ⟨rfl, vector⟩
  · intro y member
    simp only [Operand.vector, Operand.scalar, List.mem_cons, Operand.register.injEq, List.not_mem_nil,
      or_false] at member
    rcases member with rfl | rfl
    · exact vector
    · exact scalar
  · rintro d y ⟨⟩ member same
    simp only [Operand.vector, Operand.scalar, List.mem_cons, Operand.register.injEq, List.not_mem_nil,
      or_false] at member
    rcases member with rfl | rfl
    · exact upperApart_aligned ⟨rfl, rfl⟩ rfl rfl
    · exact absurd same (by decide)

/-- Allocation and encoding succeed, and no register is larger than four general registers. -/
theorem accumulated_outcome : ((Allocation.ofKernel accumulated wholeFile).toOption.map fun r =>
    (r.1.kernel.code[0]?, r.1.kernel.simdWidth, r.1.kernel.pinned,
      (Allocation.reserveFor wholeFile (Liveness.ofKernel accumulated)).size,
      (Liveness.ofKernel r.1.kernel).store.intervals.all fun iv => iv.size ≤ 128 ∧ iv.slot ≤ 128,
      (Branches.encoded .gen8 ⟨.gen8, r.1, StraightLine.plainState 16⟩
        (accumulated.code.headD default)).toOption.isSome)) =
    some (accumulated.code[0]?, 16, ⟨[]⟩, 416, true, true) := by
  simp only [Allocation.ofKernel, Allocation.sweep, Sweep.run, Sweep.start, Liveness.ofKernel, sorted_insertion]
  decide +kernel

theorem split_faithful_accumulated :
    ∃ a log words, Allocation.ofKernel accumulated wholeFile = .ok (a, log) ∧
      Branches.encoded .gen8 ⟨.gen8, a, StraightLine.plainState 16⟩ (accumulated.code.headD default) = .ok words ∧
      words.length = 2 ∧ ∃ d, undivided a 16 (accumulated.code.headD default) = .ok d ∧
        (∀ f m, executeAll f (layout .gen8) m words = some (execute f m d)) ∧
        ∀ m : Machine, m.run (layout .gen8) words = m.step d := by
  obtain ⟨⟨a, log⟩, allocated, same⟩ := toOption_map_some.mp accumulated_outcome
  simp only [Prod.mk.injEq, List.all_eq_true, decide_eq_true_eq, UInt32.le_iff_toNat_le] at same
  obtain ⟨here, simd, pinned, reserve, small, encodes⟩ := same
  have unpinned (r : VReg) : a.kernel.pin? r = none := by
    rw [Kernel.pin?, pinned]
    rfl
  have window {bytes : UInt32} (reserved : Reserved accumulated wholeFile bytes) :
      (wholeFile.fileSize - bytes).toNat ≤ 4096 := by
    rcases reserved with rfl | rfl
    · decide
    · rw [reserve]
      decide
  cases made : Branches.encoded .gen8 ⟨.gen8, a, StraightLine.plainState 16⟩ (accumulated.code.headD default) with
  | error e =>
    rw [made] at encodes
    cases encodes
  | ok words =>
    refine ⟨a, log, words, allocated, made,
      split_faithful .gen8 .gen8 accumulated wholeFile a log 16 0 _ words allocated ?_
      (fun _ _ => pinsAside_of_unpinned unpinned) here ?_ ⟨by decide, .inl (by decide)⟩ rfl accumulated_unharmed made⟩
    · intro bytes reserved
      have most := window reserved
      have bound : (128 : UInt32).toNat = 128 := rfl
      refine sumsFit_of_unpinned unpinned fun r iv found => ?_
      have fits := small iv (mem_of_intervalOf found)
      omega
    · rw [Kernel.widthOf, simd]
      rfl

/-! ## Harm -/

/-- A sum with a scalar of the destination. -/
def selfScaled : Kernel where
  name := "selfScaled"
  simdWidth := 16
  next := 1
  code := [{ op := .add, dst := .vector ⟨0⟩ .ul, src := [.vector ⟨0⟩ .ul, .scalar ⟨0⟩ .ul] }, { op := .endThread }]

/-- A move of dwords to qwords in place. -/
def widened : Kernel where
  name := "widened"
  simdWidth := 16
  next := 1
  code := [{ op := .mov, dst := .vector ⟨0⟩ .ul, src := [.vector ⟨0⟩ .ud] }, { op := .endThread }]

/-- A multiply-add with a scalar of the destination. -/
def selfAdded : Kernel where
  name := "selfAdded"
  simdWidth := 16
  next := 2
  code :=
    [{ op := .mad, dst := .vector ⟨0⟩ .f, src := [.scalar ⟨0⟩ .f, .vector ⟨1⟩ .f, .vector ⟨1⟩ .f] },
      { op := .endThread }]

/-- A machine whose registers hold the qword one throughout. -/
def ones : Machine := ⟨fun b => if b % 8 = 0 then 1 else 0, fun _ => 0, 0⟩

/-- The element of a lane of the first register where lanes add up what they read: after the words of a kernel's
first instruction, and after the instruction as one word. -/
def laneAfter (g : Generation) (flavor : Flavor) (k : Kernel) (size lane : Nat) : Option (UInt64 × UInt64) := do
  let (a, _) ← (Allocation.ofKernel k wholeFile).toOption
  let i ← a.kernel.code[0]?
  let words ← (Branches.encoded g ⟨flavor, a, StraightLine.plainState 16⟩ i).toOption
  let d ← (undivided a 16 i).toOption
  let m ← executeAll List.sum g.layout ones words
  let element (m : Machine) : UInt64 := m.registers.load ((a.offsets.get ⟨0⟩).toNat + size * lane) size
  return (element m, element (execute List.sum ones d))

/-- Where the destination is read as a scalar, or as a vector of narrower elements, the second half reads what the
first has written. -/
theorem halves_disturbed :
    laneAfter .gen8 .gen8 selfScaled 8 8 = some (3, 2) ∧ laneAfter .gen8 .gen8 widened 8 10 = some (0, 1) ∧
      laneAfter .gen7 .gen7 selfAdded 4 8 = some (5, 3) := by
  simp only [laneAfter, Allocation.ofKernel, Allocation.sweep, Sweep.run, Sweep.start, Liveness.ofKernel,
    sorted_insertion]
  decide +kernel

end GpuCodegen.SplitLanes
