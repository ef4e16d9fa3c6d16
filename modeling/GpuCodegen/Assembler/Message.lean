import GpuCodegen.Assembler.Encode

/-!
Messages to shared functions. A message is a word with an immediate descriptor; the function control
bits of the descriptor depend on the shared function:

* memory: surface in bits 7 to 0, control in 13 to 8, message type in 17 to 14;
* scratch memory: bit 18 set, bit 17 for writes, block size in 13 to 12, register offset in 11 to 0;
* gateway: sub-function in bits 2 to 0, notification in 15 to 14;
* sampler: surface in bits 7 to 0, message type in 16 to 12, width in 18 to 17;
* motion estimation: surface in bits 7 to 0, message type in 14 to 13.
-/

namespace GpuCodegen.Generation

open Native

/-- The largest scratch byte offset a block message reaches. -/
def maxScratchOffset : UInt32 := 0xfff * grfSize

/-- Marks a scratch message. -/
def scratchCategory : UInt32 := 0x40000

/-- Marks a scratch write. -/
def scratchWriteBit : UInt32 := 0x20000

/-- Writes the shared function and the descriptor of a message. -/
def setDescriptor (g : Generation) (target : SharedFunction) (d : Descriptor) (w : Word) :
    Except Diagnostic Word := do
  let l := g.layout
  let f := l.descriptor
  if d.messageLength = 0 ∨ f.messageLength.fits d.messageLength = false then
    throw (.encoding (.messageLength d.messageLength))
  if f.responseLength.fits d.responseLength = false then
    throw (.encoding (.responseLength d.responseLength))
  if f.function.fits d.function = false then
    throw (.encoding (.functionControl d.function f.function.width))
  let w := l.header.condition.set target.code.toUInt32 w
  let w := l.src1.file.set RegFile.imm.code.toUInt32 w
  let w := l.src1.type.set ((Layout.codeOf? l.immediateTypes .ud).getD 0) w
  let w := l.imm32.set 0 w
  let w := f.function.set d.function w
  let w := f.header.setBool d.header w
  let w := f.responseLength.set d.responseLength w
  let w := f.messageLength.set d.messageLength w
  return f.endOfThread.setBool d.endOfThread w

/-- A message with an immediate descriptor. -/
def sendWord (g : Generation) (s : State) (target : SharedFunction) (dst payload : Register)
    (d : Descriptor) : Except Diagnostic Word := do
  let w ← g.headerWord s .send
  if payload.file ≠ .grf ∧ payload.file ≠ .mrf then
    throw (.encoding (.payloadFile payload.file))
  let w ← g.setDestination dst w
  let w ← g.setSource0 s payload w
  g.setDescriptor target d w

/-- The null register as messages without a response name it. -/
def nullWords : Register := Register.null.retype .uw

/-- A fence on earlier memory accesses. -/
def fenceWord (g : Generation) (s : State) (dst payload : Register) (flushImages : Bool) :
    Except Diagnostic Word :=
  let commit : UInt32 := if dst.isNull then 0 else 0x20
  let flush : UInt32 := if flushImages then 0x10 else 0
  g.sendWord s g.memoryFunction dst payload
    { function := ((7 : UInt32) <<< 14) ||| ((commit ||| flush) <<< 8)
      header := true
      messageLength := 1
      responseLength := if dst.isNull then 0 else 1 }

/-- The message type of an untyped message, which depends on the cache it goes to. -/
def untypedType (g : Generation) (first second : UInt32) : UInt32 :=
  if g.untypedFunction = .dataCache1 then second else first

/-- An atomic on a surface. -/
def atomicWord (g : Generation) (s : State) (function : UInt32) (dst payload : Register)
    (surface : UInt8) (length : UInt32) : Except Diagnostic Word :=
  if function = 0 ∨ 0xf < function then
    .error (.encoding (.atomicFunction function))
  else
    let returned : UInt32 := if dst.isNull then 0 else 0x20
    let narrow : UInt32 := if s.isSimd16 then 0 else 0x10
    g.sendWord s g.untypedFunction dst payload
      { function := surface.toUInt32 ||| ((function ||| returned ||| narrow) <<< 8) |||
          (g.untypedType 6 2 <<< 14)
        messageLength := length
        responseLength := if dst.isNull then 0 else s.laneRegisters }

/-- The channel mask and width of an untyped access: a set bit disables a channel. -/
def untypedControl (s : State) (elements : Int) : Except Diagnostic UInt32 :=
  let mode : UInt32 := if s.isSimd16 then 0x10 else 0x20
  if elements = 1 then .ok (0xe ||| mode)
  else if elements = 2 then .ok (0xc ||| mode)
  else if elements = 3 then .ok (0x8 ||| mode)
  else if elements = 4 then .ok mode
  else .error (.unimplemented (.untypedElements elements))

/-- A load of dwords per lane. -/
def untypedReadWord (g : Generation) (s : State) (dst address : Register) (surface : UInt8)
    (elements : Int) : Except Diagnostic Word := do
  let control ← untypedControl s elements
  g.sendWord s g.untypedFunction dst address
    { function := surface.toUInt32 ||| (control <<< 8) ||| (g.untypedType 5 1 <<< 14)
      messageLength := s.laneRegisters
      responseLength := UInt32.ofInt elements * s.laneRegisters }

/-- A store of dwords per lane. -/
def untypedWriteWord (g : Generation) (s : State) (payload : Register) (surface : UInt8)
    (elements : Int) : Except Diagnostic Word := do
  let control ← untypedControl s elements
  g.sendWord s g.untypedFunction nullWords payload
    { function := surface.toUInt32 ||| (control <<< 8) ||| (g.untypedType 13 9 <<< 14)
      messageLength := UInt32.ofInt (1 + elements) * s.laneRegisters }

/-- The function control of a scratch block message. -/
def scratchFunction (write : Bool) (offset : UInt32) (registers : Int) :
    Except Diagnostic UInt32 := do
  let block : UInt32 ←
    if registers = 1 then pure 0
    else if registers = 2 then pure 1
    else if registers = 4 then pure 3
    else throw (.unimplemented (.scratchBlock registers))
  if offset % grfSize ≠ 0 ∨ maxScratchOffset < offset then
    throw (.encoding (.scratchOffset offset))
  return scratchCategory ||| (block <<< 12) ||| (offset / grfSize) |||
    (if write then scratchWriteBit else 0)

/-- A read of registers from scratch memory. -/
def scratchReadWord (g : Generation) (s : State) (dst header : Register) (offset : UInt32)
    (registers : Int) : Except Diagnostic Word := do
  let function ← scratchFunction false offset registers
  g.sendWord s g.memoryFunction (dst.retype .uw) header
    { function := function
      header := true
      messageLength := 1
      responseLength := UInt32.ofInt registers }

/-- A write of the registers after the header to scratch memory. -/
def scratchWriteWord (g : Generation) (s : State) (header : Register) (offset : UInt32)
    (registers : Int) : Except Diagnostic Word := do
  let function ← scratchFunction true offset registers
  g.sendWord s g.memoryFunction nullWords header
    { function := function
      header := true
      messageLength := UInt32.ofInt (1 + registers) }

/-- A motion estimation message. -/
def motionWord (g : Generation) (s : State) (message : UInt32) (dst payload : Register)
    (surface : UInt8) : Except Diagnostic Word := do
  let length : UInt32 ←
    if message = 1 ∨ message = 3 then pure 8
    else if message = 2 then pure 6
    else throw (.encoding (.motionMessage message))
  if g.supports .motionEstimation = false then
    throw (.unsupported .motion g.name)
  g.sendWord s .checkRefine (dst.retype .uw) payload
    { function := surface.toUInt32 ||| (message <<< 13)
      header := true
      messageLength := length
      responseLength := 7 }

/-- The words that end a thread: the thread header goes to the last register and is sent to the
thread spawner. -/
def endThreadWords (g : Generation) (s : State) : Except Diagnostic (List Word) := do
  let s := s.unmasked 8
  let last := Register.ud8 127 0
  let copy ← g.unaryWord s .mov last (.ud8 0 0)
  let message ← g.sendWord s .threadSpawner .null last
    { function := 0x10, messageLength := 1, endOfThread := true }
  return [copy, message]

/-- The words of a command under a state, or the rule it breaks. -/
def assemble (g : Generation) (s : State) : Command → Except Diagnostic (List Word)
  | .unary op dst src => (g.unaryWord s op.opcode dst src).map ([·])
  | .binary op dst src0 src1 => (g.binaryWord s op.opcode dst src0 src1).map ([·])
  | .compare condition dst src0 src1 => (g.compareWord s condition dst src0 src1).map ([·])
  | .ternary op dst src0 src1 src2 => g.tripleWords s op.opcode dst src0 src1 src2
  | .nop => (g.headerWord s .nop).map ([·])
  | .jump distance =>
    (g.binaryWord { s with execWidth := 1, noMask := true } .jmpi .instructionPointer
      .instructionPointer (.immD distance.toUInt32)).map ([·])
  | .send target dst payload d => (g.sendWord s target dst payload d).map ([·])
  | .barrier payload =>
    (g.sendWord s .gateway .null payload { function := 0x4004, messageLength := 1 }).map ([·])
  | .wait => (g.unaryWord s .wait (.notification 0) (.notification 0)).map ([·])
  | .fence dst payload flush => (g.fenceWord s dst payload flush).map ([·])
  | .flushSampler dst payload =>
    (g.sendWord s .sampler dst payload
      { function := 0x7f000, header := true, messageLength := 1, responseLength := 1 }).map ([·])
  | .atomic function dst payload surface length =>
    (g.atomicWord s function dst payload surface length).map ([·])
  | .untypedRead dst address surface elements =>
    (g.untypedReadWord s dst address surface elements).map ([·])
  | .untypedWrite payload surface elements =>
    (g.untypedWriteWord s payload surface elements).map ([·])
  | .scratchRead dst header offset registers =>
    (g.scratchReadWord s dst header offset registers).map ([·])
  | .scratchWrite header offset registers =>
    (g.scratchWriteWord s header offset registers).map ([·])
  | .motion message dst payload surface => (g.motionWord s message dst payload surface).map ([·])
  | .endThread => g.endThreadWords s

/-- Whether a word is a message that stores to memory or performs an atomic. -/
def writesMemory (g : Generation) (w : Word) : Bool :=
  let l := g.layout
  let target := SharedFunction.ofCode (l.header.condition.get w).toUInt8
  let function := l.descriptor.function.get w
  let type := (function >>> 14) &&& 0xf
  Native.Opcode.ofCode (l.header.opcode.get w).toUInt8 == .send &&
    (target == g.memoryFunction || target == g.untypedFunction) &&
    if function &&& scratchCategory ≠ 0 then function &&& scratchWriteBit != 0
    else if type = 13 ∨ type = 6 then target != .dataCache1
    else if type = 9 ∨ type = 2 then target == .dataCache1
    else false

end GpuCodegen.Generation
