import GpuCodegen.Lowering.Selection

/-!
Emission maps the instructions of an allocated kernel to commands. Operands become register file
bytes through the allocation; instructions that touch qwords on sixteen lanes run in quarters of eight
lanes. A failure carries the commands that came before it in the same instruction.
-/

namespace GpuCodegen

open Native

/-- The commands of an instruction, or a failure with the commands before it. -/
abbrev Emitted := Except (Stopped Issue) (List Issue)

namespace Emission

/-- What emission needs to know around a single instruction. -/
structure Frame where
  flavor : Flavor
  allocation : Allocation
  /-- The assembler's state between instructions. -/
  base : State

/-- A failure before any command. -/
def failed {α : Type} (d : Diagnostic) : Except (Stopped Issue) α := .error ⟨d, []⟩

/-- Lifts a check that comes before any command. -/
def checked {α : Type} (r : Except Diagnostic α) : Except (Stopped Issue) α :=
  r.mapError fun d => ⟨d, []⟩

/-- The value bits of an immediate with its negation folded in. -/
def immediateBits (t : Element) (bits : UInt64) (negate : Bool) : UInt64 :=
  if negate then
    match t with
    | .f => bits ^^^ 0x80000000
    | .df => bits ^^^ 0x8000000000000000
    | _ => 0 - bits
  else
    bits

/-- The sign-extended low byte of a value, as a word. -/
def signedByte (v : UInt64) : UInt16 := v.toUInt8.toInt8.toInt16.toUInt16

/-- An immediate operand. -/
def immediate (t : Element) (bits : UInt64) (negate : Bool) : Except Diagnostic Register :=
  let v := immediateBits t bits negate
  match t with
  | .ud => .ok (.immUD v.toUInt32)
  | .d => .ok (.immD v.toUInt32)
  | .uw | .ub => .ok (.immUW v.toUInt16)
  | .w => .ok (.immW v.toUInt16)
  | .b => .ok (.immW (signedByte v))
  | .f => .ok (.immF v.toUInt32)
  | .df => .ok (.immDF v)
  | .ul => .ok (.immUL v)
  | .l => .ok (.immL v)
  | .hf | .unknown => .error (.unimplemented (.immediate t))

/-- The offset of a register, which has to be placed. -/
def placeOf (a : Allocation) (r : VReg) : Except Diagnostic UInt32 :=
  match a.offsets.lookup? r with
  | some offset => .ok offset
  | none => .error (.placement (.unplaced r) r)

/-- A register operand on its bytes. A vector is described one register row at a time; a scalar, or
any operand of a single lane, is one element. -/
def placed (a : Allocation) (o : RegisterOperand) (width : Int) : Except Diagnostic Register := do
  let offset ← placeOf a o.reg
  let offset := offset + UInt32.ofInt (o.part * o.type.size * o.lanes width)
  let number := offset / grfSize
  let sub := offset % grfSize
  let r :=
    if o.scalar || width == 1 then
      Register.vec1 number sub o.type.dataType
    else
      let n := min width (32 / o.type.size : Nat)
      Register.vec number sub o.type.dataType n n 1
  return { r with negate := o.negate, absolute := o.absolute }

/-- An operand on its bytes. -/
def operand (a : Allocation) (width : Int) : Operand → Except Diagnostic Register
  | .immediate t bits negate _ => immediate t bits negate
  | .absent _ => .ok .null
  | .register o => placed a o width

/-- A destination; a missing one is the null register of a type. -/
def destination (a : Allocation) (width : Int) (t : Element) : Operand → Except Diagnostic Register
  | .absent _ => .ok (Register.null.retype t.dataType)
  | o => operand a width o

/-- The register a source operand refers to, however it is written: a missing operand stands for the
first register and an immediate for none. -/
def referenced : Operand → RegisterOperand
  | .register o => o
  | .absent t => { reg := ⟨0⟩, type := t }
  | .immediate t _ negate absolute => { reg := .none, type := t, negate := negate, absolute := absolute }

/-- Whether an instruction of more than eight lanes touches qwords. -/
def isWide (i : Instruction) (width : Int) : Bool :=
  decide (8 < width) &&
    ((!i.dst.isAbsent && i.dst.type.is64) || i.src.any fun o => o.type.is64)

/-- The lanes of a quarter of an operand. -/
def quarter (r : Register) (q : Nat) : Register :=
  if q = 0 ∨ r.file ≠ .grf ∨ r.indirect.isSome then r else r.quarter (UInt32.ofNat q)

/-- Runs commands once per eight lanes when there are more than eight, and once otherwise. -/
def quarters (s : State) (width : Int) (f : State → Nat → List Issue) : List Issue :=
  if width ≤ 8 then
    f s 0
  else
    (List.range (width.tdiv 8).toNat).flatMap fun q =>
      f { s with execWidth := 8, quarter := UInt32.ofNat q } q

/-- The command of an instruction that runs on the arithmetic unit. -/
def aluCommand (i : Instruction) (dst : Register) (src : List Register) : Command :=
  let s0 := src.getD 0 default
  let s1 := src.getD 1 default
  let s2 := src.getD 2 default
  match i.op with
  | .mov => .unary .mov dst s0
  | .not => .unary .not dst s0
  | .add => .binary .add dst s0 s1
  | .mul => .binary .mul dst s0 s1
  | .and => .binary .and dst s0 s1
  | .or => .binary .or dst s0 s1
  | .xor => .binary .xor dst s0 s1
  | .shl => .binary .shl dst s0 s1
  | .shr => .binary .shr dst s0 s1
  | .asr => .binary .asr dst s0 s1
  | .select => .binary .sel dst s0 s1
  | .mad => .ternary .mad dst s0 s1 s2
  | .lrp => .ternary .lrp dst s0 s1 s2
  | .compare => .compare i.condition.code.toUInt32 dst s0 s1
  | _ => .nop

/-- The type of the null register that stands for a missing destination. -/
def resultType (i : Instruction) : Element :=
  match i.dst, i.src with
  | .absent _, o :: _ => o.type
  | dst, _ => dst.type

/-- An instruction of the arithmetic unit. -/
def alu (a : Allocation) (s : State) (i : Instruction) (width : Int) : Emitted := do
  let src ← checked (i.src.mapM (operand a width))
  let dst ← checked (destination a width (resultType i) i.dst)
  if isWide i width then
    return quarters s width fun s q =>
      [⟨s, aluCommand i (quarter dst q) (src.map fun r => quarter r q)⟩]
  else
    return [⟨s, aluCommand i dst src⟩]

/-- A barrier. -/
def barrier (f : Frame) (s : State) (i : Instruction) : Emitted := do
  let dst ← checked (operand f.allocation 8 i.dst)
  let payload ← checked (operand f.allocation 8 (i.src.getD 0 default))
  return Sequence.barrier f.flavor s (dst.retype .ud) (payload.retype .ud) i.fences

/-- An atomic on its payload. -/
def atomic (a : Allocation) (s : State) (i : Instruction) (width : Int) : Emitted := do
  let dst ← checked (destination a width .ud i.dst)
  let source := i.src.getD 0 default
  let payload ← checked (operand a width source)
  let length := UInt32.ofInt ((wrap64 (source.spans * width)).tdiv 8)
  return [⟨s, .atomic i.atomic.code.toUInt32 dst payload i.surface length⟩]

/-- A load. -/
def load (a : Allocation) (s : State) (i : Instruction) (width : Int) : Emitted := do
  let dst ← checked (operand a width i.dst)
  let address ← checked (operand a width (i.src.getD 0 default))
  return [⟨s, .untypedRead (dst.retype .ud) address i.surface 1⟩]

/-- A store of a prepared payload. -/
def store (a : Allocation) (s : State) (i : Instruction) (width : Int) : Emitted := do
  let payload ← checked (operand a width (i.src.getD 0 default))
  return [⟨s, .untypedWrite payload i.surface 1⟩]

/-- Repeats the last entry until there is a multiple of four. -/
def padEntries (entries : List UInt16) : List UInt16 :=
  entries ++ List.replicate ((4 - entries.length % 4) % 4) (entries.getLastD 0)

/-- An indirect move: the address register is loaded with every lane's byte address. -/
def indirect (f : Frame) (s : State) (i : Instruction) (width : Int) : Emitted := do
  let src := referenced (i.src.getD 0 default)
  let base ← checked (placeOf f.allocation src.reg)
  let base := base + UInt32.ofInt (src.part * src.type.size * width)
  let entries := padEntries (i.addresses.map fun o => base.toUInt16 + o)
  let setup ← checked (Sequence.setAddresses f.flavor s entries)
  match operand f.allocation width i.dst with
  | .error d => throw ⟨d, setup⟩
  | .ok dst =>
    let gather :=
      { Register.gather src.type.dataType 0 0 with negate := src.negate, absolute := src.absolute }
    return setup ++ [⟨s, .mov dst gather⟩]

/-- The low half of a 64-bit product. -/
def multiply (a : Allocation) (s : State) (i : Instruction) (width : Int) : Emitted := do
  let dst ← checked (operand a width i.dst)
  let src ← checked (i.src.mapM (operand a width))
  return quarters s width fun s q =>
    let part (n : Nat) : Register := quarter (src.getD n default) q
    Sequence.multiply s (quarter dst q) (part 0) (part 1) (part 2)

/-- The high half of a 64-bit product. -/
def multiplyHigh (a : Allocation) (s : State) (i : Instruction) (width : Int) : Emitted := do
  let dst ← checked (operand a width i.dst)
  let src ← checked (i.src.mapM (operand a width))
  return quarters s width fun s q =>
    let part (n : Nat) : Register := quarter (src.getD n default) q
    Sequence.fullMultiply s (part 0) (part 1) (quarter dst q) (part 2) (part 3) (part 4)

/-- The stack pointer. -/
def stack (a : Allocation) (s : State) (i : Instruction) (width : Int) : Emitted := do
  let sp ← checked (operand a width i.dst)
  let src ← checked (i.src.mapM (operand a width))
  return Sequence.stackPointer s width a.kernel.stackSize sp (src.getD 0 default)
    (src.getD 1 default) i.dst.type.is64

/-- A reload or spill. -/
def scratch (a : Allocation) (s : State) (i : Instruction) : Emitted := do
  if !a.hasSpills then
    failed (.encoding (.noScratchHeader i.op))
  let header := Register.ud8 (a.header / grfSize) 0
  let value := if i.op = .spill then i.src.getD 0 default else i.dst
  let data ← checked (operand a 8 value)
  if i.op = .reload then
    return Sequence.reload s header data value.spans.toNat i.offset
  else
    return Sequence.spill s header data value.spans.toNat i.offset

/-- The byte of the thread header that a motion estimation payload carries over. -/
def motionThreadByte : UInt32 := 20

/-- Moves one dword of a motion estimation payload into place, highest dword of each register
first. -/
def motionDword (payload : Register) (index : Nat) (value : Register) : Command :=
  .mov
    (.ud1 (payload.number + UInt32.ofNat (index / 8)) (UInt32.ofNat (7 - index % 8) * 4))
    value

/-- The moves that fill a motion estimation payload, up to the first operand without a place. -/
def motionPayload (a : Allocation) (s : State) (payload : Register) :
    List Issue → List (Operand × Nat) → Emitted
  | done, [] => .ok done
  | done, (o, index) :: rest =>
    match operand a 1 o with
    | .error d => .error ⟨d, done⟩
    | .ok value =>
      motionPayload a s payload (done ++ [⟨s, motionDword payload index value⟩]) rest

/-- A motion estimation message: the payload is filled, the thread's byte copied, the message
sent. -/
def motion (a : Allocation) (s : State) (i : Instruction) (width : Int) : Emitted := do
  let dst ← checked (operand a width i.dst)
  let payload ← checked (operand a width (i.src.getD 0 default))
  if payload.sub ≠ 0 then
    failed (.encoding (.motionPayloadUnaligned payload.number payload.sub))
  let one := s.unmasked 1
  let filled ← motionPayload a one payload [] (i.src.drop 1).zipIdx
  return filled ++
    [⟨one, .mov (.ub1 payload.number motionThreadByte) (.ub1 0 motionThreadByte)⟩,
      ⟨s, .motion i.motion.code.toUInt32 dst payload i.surface⟩]

/-- The state an instruction is issued under. -/
def instructionState (base : State) (i : Instruction) (width : Int) : State :=
  { base with
    execWidth := width
    predicate := if i.predicated || i.op == .select then 1 else base.predicate }

/-- The commands of an instruction other than a label or jump. -/
def instruction (f : Frame) (i : Instruction) : Emitted :=
  let a := f.allocation
  let width := a.kernel.widthOf i
  let s := instructionState f.base i width
  match i.op with
  | .mov | .not | .add | .mul | .and | .or | .xor | .shl | .shr | .asr | .select | .mad | .lrp
  | .compare => alu a s i width
  | .nop => .ok [⟨s, .nop⟩]
  | .endThread => .ok [⟨s, .endThread⟩]
  | .barrier => barrier f s i
  | .atomicMessage => atomic a s i width
  | .load => load a s i width
  | .storeMessage => store a s i width
  | .indirectMov => indirect f s i width
  | .mul64 => multiply a s i width
  | .mulHi64 => multiplyHigh a s i width
  | .stackSetup => stack a s i width
  | .reload | .spill => scratch a s i
  | .motionMessage => motion a s i width
  | .label | .jump | .mulHi | .atomic | .store | .motion | .unlisted _ =>
    failed (.encoding (.notLowered i.op))

end Emission

end GpuCodegen
