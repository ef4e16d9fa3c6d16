import GpuCodegen.Native.Layout
import GpuCodegen.Native.Opcode
import GpuCodegen.Native.Register

/-!
The field-level view of an instruction word. `Layout.decode` reads a word through a layout; it
refuses words whose type codes the layout does not have. `Decoded.text` is the assembly form used
in listings.
-/

namespace GpuCodegen.Native

/-- The descriptor of a message. -/
structure Descriptor where
  /-- The shared function's own control bits. -/
  function : UInt32 := 0
  header : Bool := false
  /-- The response length in registers. -/
  responseLength : UInt32 := 0
  /-- The message length in registers. -/
  messageLength : UInt32 := 0
  endOfThread : Bool := false
  deriving DecidableEq, Repr, Inhabited

/-- The message part of a decoded word. -/
structure Message where
  target : SharedFunction
  descriptor : Descriptor
  deriving DecidableEq, Repr

/-- The content of an instruction word. -/
structure Decoded where
  opcode : Opcode
  execSize : Int
  accessMode : UInt32
  quarter : UInt32
  noMask : Bool
  predicate : UInt32
  predInvert : Bool
  flag : UInt32
  subFlag : UInt32
  condition : UInt32
  saturate : Bool
  dst : Register
  writemask : UInt32
  sources : List Register
  message : Option Message
  deriving DecidableEq, Repr

/-- Why a word has no decoded form. -/
inductive DecodeError where
  | align16
  | destinationType (code : UInt32)
  | immediateType (code : UInt32)
  | sourceType (source : Nat) (code : UInt32)
  | tripleType (code : UInt32)
  /-- A two-source operation whose first source takes the room of the second. -/
  | noSecondSource (op : Opcode)
  deriving DecidableEq, Repr

/-- What a decode error says. -/
def DecodeError.message : DecodeError → String
  | .align16 => "align16 decoding is only supported for 3-source instructions"
  | .destinationType code => s!"invalid destination type code {code}"
  | .immediateType code => s!"invalid immediate type code {code}"
  | .sourceType source code => s!"invalid source {source} type code {code}"
  | .tripleType code => s!"invalid 3-source type code {code}"
  | .noSecondSource op => op.name ++ " with an immediate source 0 has no source 1"

namespace Layout

/-- The register file a file field names. -/
def fileAt (f : Field) (w : Word) : RegFile := .ofCode (f.get w).toUInt8

/-- Reads the destination. -/
def decodeDst (l : Layout) (w : Word) : Except DecodeError Register :=
  let code := l.dst.type.get w
  match typeOf? l.registerTypes code with
  | none => .error (.destinationType code)
  | some t =>
    let r : Register :=
      { file := fileAt l.dst.file w, type := t,
        region := ⟨0, 0, (l.dst.horizontal.get w).toUInt8⟩ }
    if l.dst.addressMode.isOne w then
      .ok { r with indirect := some ⟨l.dst.addressEntry.get w, l.dst.indirect.getSigned w⟩ }
    else
      .ok { r with number := l.dst.number.get w, sub := l.dst.sub.get w }

/-- The type, modifiers and region of a register source. -/
def decodeSourceShape (f : SourceFields) (w : Word) (t : DataType) : Register where
  file := fileAt f.file w
  type := t
  absolute := f.abs.isOne w
  negate := f.neg.isOne w
  region := ⟨(f.vertical.get w).toUInt8, (f.width.get w).toUInt8, (f.horizontal.get w).toUInt8⟩

/-- Reads the first source. -/
def decodeSrc0 (l : Layout) (w : Word) : Except DecodeError Register :=
  let code := l.src0.type.get w
  if fileAt l.src0.file w = .imm then
    match typeOf? l.immediateTypes code with
    | none => .error (.immediateType code)
    | some t =>
      let top := (l.imm32.get w).toUInt64
      if t.is64 && l.hasImm64 then
        .ok (.imm t ((l.imm64Low.get w).toUInt64 ||| (top <<< 32)))
      else
        .ok (.imm t top)
  else
    match typeOf? l.registerTypes code with
    | none => .error (.sourceType 0 code)
    | some t =>
      let r := decodeSourceShape l.src0 w t
      if l.src0.addressMode.isOne w then
        .ok { r with indirect := some ⟨l.src0AddressEntry.get w, l.src0Indirect.getSigned w⟩ }
      else
        .ok { r with number := l.src0.number.get w, sub := l.src0.sub.get w }

/-- Reads the second source, which is always addressed directly. -/
def decodeSrc1 (l : Layout) (w : Word) : Except DecodeError Register :=
  let code := l.src1.type.get w
  if fileAt l.src1.file w = .imm then
    match typeOf? l.immediateTypes code with
    | none => .error (.immediateType code)
    | some t => .ok (.imm t (l.imm32.get w).toUInt64)
  else
    match typeOf? l.registerTypes code with
    | none => .error (.sourceType 1 code)
    | some t =>
      .ok { decodeSourceShape l.src1 w t with
            number := l.src1.number.get w, sub := l.src1.sub.get w }

/-- Reads one source of a three-source instruction. -/
def decodeTripleSource (f : TripleSourceFields) (w : Word) (t : DataType) : Register :=
  let r := Register.vec8 (f.number.get w) (f.sub.get w * 4) t
  let r := if f.replicate.isOne w then r.toScalar else r
  { r with absolute := f.abs.isOne w, negate := f.neg.isOne w }

/-- Reads the message descriptor. -/
def decodeDescriptor (l : Layout) (w : Word) : Descriptor where
  function := l.descriptor.function.get w
  header := l.descriptor.header.isOne w
  responseLength := l.descriptor.responseLength.get w
  messageLength := l.descriptor.messageLength.get w
  endOfThread := l.descriptor.endOfThread.isOne w

/-- The header of a word, with everything that depends on the operation left empty. -/
def decodeHeader (l : Layout) (w : Word) : Decoded where
  opcode := .ofCode (l.header.opcode.get w).toUInt8
  execSize := execSizeOfCode (l.header.execSize.get w)
  accessMode := l.header.accessMode.get w
  quarter := l.header.quarterControl.get w
  noMask := l.header.maskControl.isOne w
  predicate := l.header.predControl.get w
  predInvert := l.header.predInvert.isOne w
  flag := l.header.flagReg.get w
  subFlag := l.header.flagSubreg.get w
  condition := l.header.condition.get w
  saturate := l.header.saturate.isOne w
  dst := {}
  writemask := 0
  sources := []
  message := none

/-- Reads a three-source word. A destination type code without a type takes the source type. -/
def decodeTriple (l : Layout) (w : Word) : Except DecodeError Decoded :=
  let t := l.triple
  let code := t.srcType.get w
  match typeOf? l.tripleTypes code with
  | none => .error (.tripleType code)
  | some srcType =>
    let dstType := (typeOf? l.tripleTypes (t.dstType.get w)).getD srcType
    .ok { l.decodeHeader w with
          flag := t.flagReg.get w
          subFlag := t.flagSubreg.get w
          dst := .vec8 (t.dstNumber.get w) (t.dstSub.get w * 4) dstType
          writemask := t.writemask.get w
          sources := t.sources.map fun f => decodeTripleSource f w srcType }

/-- Reads a word through the layout. -/
def decode (l : Layout) (w : Word) : Except DecodeError Decoded :=
  let d := l.decodeHeader w
  if d.opcode.isThreeSource then
    l.decodeTriple w
  else if d.accessMode = 1 then
    .error .align16
  else do
    let dst ← l.decodeDst w
    let d := { d with dst := dst }
    if d.opcode.sources = 0 then
      return d
    let src0 ← l.decodeSrc0 w
    if d.opcode = .send then
      return { d with
               condition := 0
               sources := [src0]
               message := some ⟨.ofCode d.condition.toUInt8, l.decodeDescriptor w⟩ }
    if d.opcode.sources ≤ 1 then
      return { d with sources := [src0] }
    if src0.file = .imm then
      throw (.noSecondSource d.opcode)
    let src1 ← l.decodeSrc1 w
    return { d with sources := [src0, src1] }

end Layout

namespace Decoded

/-- The predicate in front of an instruction. -/
def predicateText (d : Decoded) : String :=
  if d.predicate = 0 then
    ""
  else
    "(" ++ (if d.predInvert then "-" else "") ++ s!"f{d.flag}.{d.subFlag}) "

/-- The message part of an instruction. -/
def messageText (m : Message) : String :=
  s!" {m.target.name} mlen {m.descriptor.messageLength} rlen {m.descriptor.responseLength}" ++
    " fc 0x" ++ Text.hexPadded 5 m.descriptor.function.toNat ++
    (if m.descriptor.endOfThread then " EOT" else "")

/-- The assembly text of an instruction. -/
def text (d : Decoded) : String :=
  let head := d.predicateText ++ s!"{d.opcode.name}({d.execSize})" ++
    (if d.quarter = 0 then "" else s!" Q{d.quarter + 1}")
  if d.opcode = .nop then
    head
  else
    head ++ " " ++ d.dst.text ++ String.join (d.sources.map fun r => ", " ++ r.text) ++
      (d.message.map messageText).getD "" ++ (if d.noMask then " \x7bNoMask\x7d" else "")

end Decoded

end GpuCodegen.Native
