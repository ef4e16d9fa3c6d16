import GpuCodegen.Assembler.Command
import GpuCodegen.Assembler.State

/-!
Encoding operands and headers into instruction words. Each function extends a word through the
generation's layout or says which rule the operand breaks; `Generation.unaryWord` and its companions
put whole words together.
-/

namespace GpuCodegen.Generation

open Native

/-- The layout of a generation's words. -/
def layout (g : Generation) : Layout := Layout.ofGeneration g

/-- Refuses the types of features the generation lacks. -/
def checkType (g : Generation) (t : DataType) : Except Diagnostic Unit :=
  match t with
  | .df => if g.supports .fp64 then .ok () else .error (.unsupported .doubles g.name)
  | .ul | .l => if g.supports .int64 then .ok () else .error (.unsupported .int64 g.name)
  | _ => .ok ()

/-- The code of a register operand's type. -/
def registerTypeCode (g : Generation) (t : DataType) : Except Diagnostic UInt32 := do
  g.checkType t
  match Layout.codeOf? g.layout.registerTypes t with
  | some code => pure code
  | none => throw (.unsupported (.registerType t) g.name)

/-- The code of an immediate's type. -/
def immediateTypeCode (g : Generation) (t : DataType) : Except Diagnostic UInt32 :=
  match Layout.codeOf? g.layout.immediateTypes t with
  | some code => .ok code
  | none => .error (.unsupported (.immediateType t) g.name)

/-- Refuses general registers that do not exist. -/
def checkRegister (role : Role) (r : Register) : Except Diagnostic Unit :=
  if r.file = .arf ∨ r.indirect.isSome then .ok ()
  else if maxGrf ≤ r.number then .error (.encoding (.registerRange role r.number))
  else if grfSize ≤ r.sub then .error (.encoding (.subRegisterRange role r.sub))
  else .ok ()

/-- Starts a word: opcode, execution size, controls, flag register and predicate. -/
def headerWord (g : Generation) (s : State) (op : Native.Opcode) : Except Diagnostic Word := do
  let l := g.layout
  let w := l.header.opcode.set op.code.toUInt32 .zero
  if s.execWidth ≠ 1 ∧ s.execWidth ≠ 4 ∧ s.execWidth ≠ 8 ∧ s.execWidth ≠ 16 then
    throw (.unimplemented (.execWidth s.execWidth g))
  let w := l.header.execSize.set (execSizeCode s.execWidth) w
  let w := l.header.accWrite.setBool s.accWrite w
  let w := l.header.quarterControl.set s.quarter w
  let w := l.header.nibControl.setBool s.nibControl w
  let w := l.header.maskControl.setBool s.noMask w
  let (flag, sub) ← g.checkedFlag s
  let w :=
    if op.isThreeSource then l.triple.flagSubreg.set sub (l.triple.flagReg.set flag w)
    else l.header.flagSubreg.set sub (l.header.flagReg.set flag w)
  let w :=
    if s.predicate = 0 then w
    else l.header.predInvert.setBool s.inversePredicate (l.header.predControl.set s.predicate w)
  return l.header.saturate.setBool s.saturate w

/-- The horizontal stride that keeps byte and word destinations naturally aligned. -/
def naturalStride (t : DataType) : UInt8 :=
  if t.size = 1 then 3 else if t.size = 2 then 2 else 1

/-- The horizontal stride a destination is written with. -/
def destinationStride (r : Register) : UInt8 :=
  if r.region.horizontal = 0 then naturalStride r.type else r.region.horizontal

/-- Writes the destination. -/
def setDestination (g : Generation) (r : Register) (w : Word) : Except Diagnostic Word := do
  let l := g.layout
  if r.file = .imm then
    throw (.encoding .immediateDestination)
  checkRegister .destination r
  let code ← g.registerTypeCode r.type
  let w := l.dst.file.set r.file.code.toUInt32 w
  let w := l.dst.type.set code w
  let w := l.dst.horizontal.set (destinationStride r).toUInt32 w
  match r.indirect with
  | some a =>
    if l.dst.indirect.fitsSigned a.offset then
      let w := l.dst.addressMode.set 1 w
      let w := l.dst.addressEntry.set a.entry w
      return l.dst.indirect.setSigned a.offset w
    else
      throw (.encoding (.indirectRange .destination a.offset l.dst.indirect.width))
  | none => return l.dst.sub.set r.sub (l.dst.number.set r.number w)

/-- The region a source is written with: a single lane reading rows of one element reads one
element. -/
def sourceRegion (s : State) (r : Register) : Region :=
  if r.region.width = 0 ∧ s.execWidth = 1 then .scalar else r.region

/-- Writes a region. -/
def setRegion (f : SourceFields) (r : Region) (w : Word) : Word :=
  let w := f.vertical.set r.vertical.toUInt32 w
  let w := f.width.set r.width.toUInt32 w
  f.horizontal.set r.horizontal.toUInt32 w

/-- Writes file, type and modifiers of a register source. -/
def setSourceShape (f : SourceFields) (r : Register) (code : UInt32) (w : Word) : Word :=
  let w := f.file.set r.file.code.toUInt32 w
  let w := f.type.set code w
  let w := f.abs.setBool r.absolute w
  f.neg.setBool r.negate w

/-- Writes an immediate as first source. The second source's type repeats its type, except for
64-bit immediates, which take the room of both. -/
def setImmediate (g : Generation) (r : Register) (w : Word) : Except Diagnostic Word := do
  let l := g.layout
  g.checkType r.type
  let code ← g.immediateTypeCode r.type
  let w := l.src0.file.set RegFile.imm.code.toUInt32 w
  let w := l.src0.type.set code w
  if r.type.is64 then
    let w := l.imm64Low.set r.immediate.toUInt32 w
    return l.imm32.set (r.immediate >>> 32).toUInt32 w
  else
    let w := l.imm32.set r.immediate.toUInt32 w
    let w := l.src1.file.set RegFile.arf.code.toUInt32 w
    return l.src1.type.set code w

/-- Writes the first source. -/
def setSource0 (g : Generation) (s : State) (r : Register) (w : Word) : Except Diagnostic Word := do
  let l := g.layout
  if r.file = .imm then
    g.setImmediate r w
  else
    checkRegister (.source 0) r
    let code ← g.registerTypeCode r.type
    let w := setSourceShape l.src0 r code w
    match r.indirect with
    | some a =>
      if l.src0Indirect.fitsSigned a.offset then
        let w := l.src0.addressMode.set 1 w
        let w := l.src0AddressEntry.set a.entry w
        let w := l.src0Indirect.setSigned a.offset w
        return setRegion l.src0 r.region w
      else
        throw (.encoding (.indirectRange (.source 0) a.offset l.src0Indirect.width))
    | none =>
      let w := l.src0.number.set r.number w
      let w := l.src0.sub.set r.sub w
      return setRegion l.src0 (sourceRegion s r) w

/-- Writes the second source, which leaves no room for an immediate first source. -/
def setSource1 (g : Generation) (s : State) (r : Register) (w : Word) : Except Diagnostic Word := do
  let l := g.layout
  if Layout.fileAt l.src0.file w = .imm then
    throw (.encoding (if r.file = .imm then .twoImmediates else .sourceAfterImmediate))
  if r.file = .imm then
    if r.type.is64 then
      throw (.encoding .qwordSecondImmediate)
    let code ← g.immediateTypeCode r.type
    let w := l.src1.file.set RegFile.imm.code.toUInt32 w
    let w := l.src1.type.set code w
    return l.imm32.set r.immediate.toUInt32 w
  else
    if r.indirect.isSome then
      throw (.encoding .indirectSecondSource)
    checkRegister (.source 1) r
    let code ← g.registerTypeCode r.type
    let w := setSourceShape l.src1 r code w
    let w := l.src1.number.set r.number w
    let w := l.src1.sub.set r.sub w
    return setRegion l.src1 (sourceRegion s r) w

/-- A one-source word. -/
def unaryWord (g : Generation) (s : State) (op : Native.Opcode) (dst src : Register) :
    Except Diagnostic Word := do
  let w ← g.headerWord s op
  let w ← g.setDestination dst w
  g.setSource0 s src w

/-- A two-source word. -/
def binaryWord (g : Generation) (s : State) (op : Native.Opcode) (dst src0 src1 : Register) :
    Except Diagnostic Word := do
  let w ← g.headerWord s op
  let w ← g.setDestination dst w
  let w ← g.setSource0 s src0 w
  g.setSource1 s src1 w

/-- A comparison. -/
def compareWord (g : Generation) (s : State) (condition : UInt32) (dst src0 src1 : Register) :
    Except Diagnostic Word := do
  let w ← g.headerWord s .cmp
  if condition = 0 ∨ 6 < condition then
    throw (.encoding (.compareCode condition))
  let w := g.layout.header.condition.set condition w
  let w ← g.setDestination dst w
  let w ← g.setSource0 s src0 w
  g.setSource1 s src1 w

/-- Refuses operands the three-source layout cannot name. -/
def checkTriple (role : Role) (r : Register) : Except Diagnostic Unit :=
  if r.file ≠ .grf ∨ r.indirect.isSome then .error (.encoding (.tripleNotDirect role))
  else if maxGrf ≤ r.number then .error (.encoding (.tripleRange role r.number))
  else if r.sub % 4 ≠ 0 ∨ grfSize ≤ r.sub then .error (.encoding (.tripleUnaligned role r.sub))
  else .ok ()

/-- The code of a three-source operand type. -/
def tripleTypeCode (g : Generation) (t : DataType) : Except Diagnostic UInt32 :=
  match if g.tripleUnitTakes t then Layout.codeOf? g.layout.tripleTypes t else none with
  | some code => .ok code
  | none => .error (.unsupported (.tripleType t) g.name)

/-- Refuses a three-source source, or one whose type differs from the first source's. -/
def checkTripleSource (first : DataType) (index : Nat) (r : Register) : Except Diagnostic Unit := do
  checkTriple (.source index) r
  if r.type ≠ first then
    throw (.encoding (.tripleMixed first r.type))

/-- The identity swizzle of four channels. -/
def noSwizzle : UInt32 := 0xe4

/-- Writes one source of a three-source word. -/
def setTripleSource (f : TripleSourceFields) (r : Register) (w : Word) : Word :=
  let w := f.number.set r.number w
  let w := f.sub.set (r.sub / 4) w
  let w := f.swizzle.set noSwizzle w
  let w := f.abs.setBool r.absolute w
  let w := f.neg.setBool r.negate w
  f.replicate.setBool (r.region.vertical == 0) w

/-- A three-source word of the state's width. -/
def tripleWord (g : Generation) (s : State) (op : Native.Opcode)
    (dst src0 src1 src2 : Register) : Except Diagnostic Word := do
  let t := g.layout.triple
  let w ← g.headerWord s op
  checkTriple .destination dst
  let dstCode ← g.tripleTypeCode dst.type
  checkTripleSource src0.type 0 src0
  checkTripleSource src0.type 1 src1
  checkTripleSource src0.type 2 src2
  let srcCode ← g.tripleTypeCode src0.type
  let w := g.layout.header.accessMode.set 1 w
  let w := t.dstFile.set 0 w
  let w := t.dstType.set dstCode w
  let w := t.srcType.set srcCode w
  let w := t.dstNumber.set dst.number w
  let w := t.dstSub.set (dst.sub / 4) w
  let w := t.writemask.set 0xf w
  let w := setTripleSource t.src0 src0 w
  let w := setTripleSource t.src1 src1 w
  return setTripleSource t.src2 src2 w

/-- A three-source instruction. Where the unit runs eight lanes only, sixteen lanes take two
words. -/
def tripleWords (g : Generation) (s : State) (op : Native.Opcode)
    (dst src0 src1 src2 : Register) : Except Diagnostic (List Word) := do
  let w ← g.tripleWord s op dst src0 src1 src2
  if s.execWidth = 16 ∧ g.supports .tripleSimd16 = false then
    return [g.layout.lowerHalf w, g.layout.upperHalf w]
  else
    return [w]

end GpuCodegen.Generation
