import GpuCodegen.Lowering.Context
import GpuCodegen.Lowering.Sequence

/-!
Selection turns a kernel into one whose every instruction can be emitted for the target. Features the
generation lacks are refused; 64-bit multiplications, atomics, stores, barriers, motion estimation and
the stack pointer become the forms emission knows.
-/

namespace GpuCodegen

/-- Selection: the kernel written so far, or why selection fails. -/
abbrev Select := StateT Kernel (Except Diagnostic)

namespace Select

/-- Appends an instruction. -/
def emit (i : Instruction) : Select Unit := modify fun k => k.emit i

/-- Hands out a register that is not the stack pointer. -/
def fresh : Select VReg := do
  let k ← get
  if k.freshRegister = k.stackPointer then
    let k := k.allocRegister
    set k.allocRegister
    return k.freshRegister
  else
    set k.allocRegister
    return k.freshRegister

/-- A fresh vector register operand. -/
def temp (t : Element) : Select Operand := return .vector (← fresh) t

/-- Whether an operand is a register holding one plain vector. -/
def isPlainVector (o : Operand) : Bool :=
  match o.register? with
  | some x => !x.scalar && x.spans == 1
  | none => false

/-- The operand as a vector register; anything else is moved into a fresh one. -/
def vector (o : Operand) (i : Instruction) : Select Operand := do
  if isPlainVector o then
    return o
  let v ← temp o.type
  emit { op := .mov, dst := v, src := [o], execWidth := i.execWidth, block := i.block }
  return v

/-- The operand as a register; an immediate is moved into a fresh scalar one. -/
def scalar (o : Operand) (i : Instruction) : Select Operand := do
  if o.isImmediate then
    let v := Operand.scalar (← fresh) o.type
    emit { op := .mov, dst := v, src := [o], execWidth := 1, block := i.block }
    return v
  else
    return o

/-- Refuses an instruction with a wrong number of sources. -/
def wantSources (i : Instruction) (n : Nat) : Except Diagnostic Unit :=
  if i.src.length = n then .ok ()
  else .error (.encoding (.sourceCount i.op n i.src.length))

/-- The number of sources of the operations that selection passes on. -/
def sourceCount? : Opcode → Option Nat
  | .mov | .not | .load | .indirectMov => some 1
  | .add | .mul | .mulHi | .and | .or | .xor | .shl | .shr | .asr | .compare | .select | .store =>
    some 2
  | .mad | .lrp => some 3
  | .nop | .label | .jump | .endThread => some 0
  | _ => none

/-- Refuses operand types the target lacks. -/
def checkType (c : Context) (t : Element) (immediate : Bool) : Except Diagnostic Unit :=
  if t.isInt64 && !c.supports .int64 then .error (.unsupported .int64 c.generation.name)
  else if t == .df && !c.supports .fp64 then .error (.unsupported .doubles c.generation.name)
  else if t == .df && immediate && !c.supports .imm64 then
    .error (.unsupported .doubleImmediates c.generation.name)
  else if t == .hf && !c.generation.isGen8Family then
    .error (.unsupported .halves c.generation.name)
  else .ok ()

/-- Refuses an instruction with an operand type the target lacks. -/
def checkTypes (c : Context) (i : Instruction) : Except Diagnostic Unit := do
  if !i.dst.isAbsent then
    checkType c i.dst.type false
  i.src.forM fun o => checkType c o.type o.isImmediate

/-- Copies a temporary result to the destination, unless it is in place already. -/
def copyBack (i : Instruction) (result : Operand) : Select Unit :=
  match result, i.dst with
  | .register r, .register d =>
    if r.reg = d.reg then
      pure ()
    else
      emit
        { op := .mov, dst := i.dst, src := [result], execWidth := i.execWidth, block := i.block,
          predicated := i.predicated }
  | _, _ => pure ()

/-- Expands a 64-bit product with `scratch` qword temporaries. The expansion writes its destination
before it has read all sources, so an aliased destination goes through a temporary. -/
def product (op : Opcode) (scratch : Nat) (i : Instruction) (type : Element) : Select Unit := do
  let a ← vector (i.src.getD 0 default) i
  let b ← vector (i.src.getD 1 default) i
  let dst ← if i.aliased then temp type else pure i.dst
  let temps ← (List.replicate scratch Element.ul).mapM temp
  emit
    { op := op, dst := dst, src := [a, b] ++ temps, execWidth := i.execWidth, block := i.block,
      predicated := i.predicated }
  if i.aliased then
    copyBack i dst

/-- Expands the high half of an unsigned 64-bit product. -/
def mulHi (i : Instruction) : Select Unit :=
  if i.dst.type = .ul then
    product .mulHi64 3 i .ul
  else
    throw ((Diagnostic.unimplemented (.mulHiType i.dst.type)).withHelp
      "only the unsigned 64-bit high product is implemented")

/-- Passes on a three-source operation with its immediates in registers. -/
def ternary (c : Context) (i : Instruction) : Select Unit := do
  if !c.flavor.tripleTakes i.dst.type then
    throw (.unsupported (.tripleOperation i.op i.dst.type) c.generation.name)
  let src ← i.src.mapM fun o => scalar o i
  emit { i with src := src }

/-- Moves operands into the parts of a fresh payload register. -/
def stagePayload (i : Instruction) (parts : List Operand) : Select VReg := do
  let p ← fresh
  parts.zipIdx.forM fun (o, n) =>
    emit
      { op := .mov, dst := .payloadPart p o.type parts.length n, src := [o],
        execWidth := i.execWidth, block := i.block }
  return p

/-- The type that decides whether an atomic is a 64-bit one. -/
def atomicType (i : Instruction) : Element :=
  match i.dst, i.src with
  | .absent _, o :: _ => o.type
  | dst, _ => dst.type

/-- Packs the address and data of an atomic into one message payload. -/
def atomic (c : Context) (i : Instruction) : Select Unit := do
  if (atomicType i).is64 then
    if !c.supports .atomicInt64 then
      throw (.unsupported .atomics64 c.generation.name)
    throw (.unimplemented (.atomic64 i.atomic))
  if !c.flavor.hasAtomic i.atomic then
    throw (.unsupported (.atomic i.atomic) c.generation.name)
  let width := i.width c.simdWidth
  if width ≠ 8 ∧ width ≠ 16 then
    throw (.encoding (.atomicWidth width))
  wantSources i (1 + i.atomic.operands)
  match i.src.find? fun o => o.type.size != 4 with
  | some o => throw (.unimplemented (.atomicOperand o.type))
  | none => pure ()
  let p ← stagePayload i i.src
  emit
    { op := .atomicMessage, dst := i.dst, src := [.payload p .ud i.src.length],
      execWidth := i.execWidth, block := i.block, predicated := i.predicated, atomic := i.atomic,
      surface := i.surface }

/-- Passes on a load with its address in a vector register. -/
def load (i : Instruction) : Select Unit := do
  let address := i.src.getD 0 default
  if i.dst.type.size ≠ 4 ∨ address.type.size ≠ 4 then
    throw (.unimplemented (.loadTypes i.dst.type address.type))
  let address ← vector address i
  emit { i with src := [address] }

/-- Builds the payload of a store. -/
def store (i : Instruction) : Select Unit := do
  let address := i.src.getD 0 default
  let value := i.src.getD 1 default
  if address.type.size ≠ 4 ∨ value.type.size ≠ 4 then
    throw (.unimplemented (.storeTypes value.type address.type))
  let p ← stagePayload i [address, value]
  emit
    { op := .storeMessage, src := [.payload p .ud 2], execWidth := i.execWidth, block := i.block,
      predicated := i.predicated, surface := i.surface }

/-- Checks an indirect move and passes it on. -/
def indirectMov (c : Context) (i : Instruction) : Select Unit := do
  let src := i.src.getD 0 default
  match src.register? with
  | some x => if x.scalar then throw (.encoding .indirectSource)
  | none => throw (.encoding .indirectSource)
  let width := i.width c.simdWidth
  if (i.addresses.length : Int) ≠ width ∨ (Sequence.addressEntries : Int) < width then
    throw (.encoding (.indirectCount width i.addresses.length))
  if 8 < width ∧ (src.type.is64 ∨ i.dst.type.is64) then
    throw (.unimplemented (.indirectWide width))
  emit i

/-- Gives a motion estimation its payload and response registers. Sources are the payload's dwords in
order; at sixteen lanes every part of a payload takes two registers. -/
def motion (c : Context) (i : Instruction) : Select Unit := do
  if !c.supports .motionEstimation then
    throw (.unsupported .motion c.generation.name)
  let registers := i.motion.payloadRegs
  if registers = 0 then
    throw (.encoding (.motionMessage i.motion.code.toUInt32))
  let width := i.width c.simdWidth
  if width ≠ 16 then
    throw (.unimplemented (.motionWidth width))
  match i.dst.register? with
  | none => throw (.encoding .motionWriteback)
  | some dst =>
    wantSources i (registers * 8)
    match i.src.find? fun o => o.type.size != 4 with
    | some o => throw (.encoding (.motionPayloadType o.type))
    | none => pure ()
    let payload := Operand.payload (← fresh) .ud (registers / 2 : Nat)
    emit
      { op := .motionMessage, dst := .payload dst.reg .ud ((Motion.responseRegs + 1) / 2 : Nat),
        src := payload :: i.src, execWidth := i.execWidth, block := i.block, surface := i.surface,
        motion := i.motion }

/-- Gives a barrier its fence and payload registers. -/
def barrier (i : Instruction) : Select Unit := do
  let dst ← if i.dst.isRegister then pure i.dst else temp .ud
  let src ←
    if (i.src.getD 0 default).isRegister then pure i.src else (fun t => [t]) <$> temp .ud
  emit { i with execWidth := 8, dst := dst, src := src }

/-- Computes the stack pointer before anything else runs. -/
def stackSetup (c : Context) : Select Unit := do
  let k ← get
  let type := if k.pointerSize = 8 then Element.ul else .ud
  let tmp ← fresh
  let lane ← fresh
  emit
    { op := .stackSetup, dst := .vector k.stackPointer type,
      src := [.scalar tmp .ud, .vector lane .ud],
      block := (c.kernel.code.head?.map (·.block)).getD 0 }

/-- Selects one instruction. -/
def lower (c : Context) (i : Instruction) : Select Unit := do
  match sourceCount? i.op with
  | some n => wantSources i n
  | none => pure ()
  match i.op with
  | .mul =>
    if i.dst.type.isInt64 && !c.supports .nativeInt64Mul then product .mul64 1 i i.dst.type
    else emit i
  | .mulHi => mulHi i
  | .mad | .lrp => ternary c i
  | .atomic => atomic c i
  | .load => load i
  | .store => store i
  | .indirectMov => indirectMov c i
  | .barrier => barrier i
  | .motion => motion c i
  | .compare =>
    if i.condition.isListed then emit i
    else throw (.encoding (.compareCondition i.condition))
  | .mul64 | .mulHi64 | .atomicMessage | .storeMessage | .stackSetup | .reload | .spill
  | .motionMessage => throw (.encoding (.notAnInput i.op))
  | .unlisted _ => throw (.unimplemented (.selection i.op))
  | _ => emit i

/-- Refuses pointer sizes the target lacks. -/
def checkPointers (c : Context) : Except Diagnostic Unit :=
  if c.kernel.pointerSize = 4 then .ok ()
  else if c.kernel.pointerSize = 8 then
    if c.supports .qwordPointers then .ok ()
    else .error (.unsupported .qwordPointers c.generation.name)
  else
    .error ((Diagnostic.config (.pointerSize c.kernel.pointerSize)).withSuggestion
      "use 4 or 8 byte pointers")

/-- An instruction with at most the target's number of lanes. -/
def narrowed (c : Context) (i : Instruction) : Instruction :=
  if c.simdWidth < i.execWidth then { i with execWidth := c.simdWidth } else i

/-- Selects the instruction at a position. -/
def step (c : Context) (entry : Instruction × Nat) : Select Unit := fun k =>
  let i := narrowed c entry.1
  match checkTypes c i with
  | .error d => .error (d.atPosition entry.2)
  | .ok () =>
    match (lower c i).run k with
    | .error d => .error (d.atPosition entry.2)
    | .ok r => .ok r

/-- Selects all instructions. -/
def all (c : Context) : Select Unit := do
  if 0 < c.kernel.stackSize ∧ c.kernel.stackPointer ≠ .none then
    stackSetup c
  c.kernel.code.zipIdx.forM (step c)

end Select

namespace Context

/-- The kernel in the forms that emission knows. -/
def select (c : Context) : Except Diagnostic Kernel := do
  Select.checkPointers c
  let (_, k) ← (Select.all c).run { c.kernel.cloneEmpty with simdWidth := c.simdWidth }
  return k

end Context

end GpuCodegen
