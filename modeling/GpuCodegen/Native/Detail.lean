import GpuCodegen.Native.Decoded
import GpuCodegen.Text.Value

/-!
Words, operands and decoded instructions as values that a trace can show in full.
-/

namespace GpuCodegen.Native

open Text (Value)

/-- A word: its assembly listing form, or its four dwords. -/
def Word.value (w : Word) : Value :=
  .titled w.text (.row "isa.Word" (w.dwords.map .word))

/-- The parts of an operand. An operand that is not indirect has entry and offset zero. -/
def Register.value (r : Register) : Value :=
  let address := r.indirect.getD ⟨0, 0⟩
  .record "isa.Register"
    [("File", .byte "isa.RegFile" r.file.code), ("Type", .byte "isa.Type" r.type.code),
      ("Nr", .word r.number), ("Subnr", .word r.sub),
      ("VStride", .byte "uint8" r.region.vertical), ("Width", .byte "uint8" r.region.width),
      ("HStride", .byte "uint8" r.region.horizontal),
      ("Neg", .truth r.negate), ("Abs", .truth r.absolute),
      ("Indirect", .truth r.indirect.isSome), ("A0Subnr", .word address.entry),
      ("AddrImm", .signed "int32" address.offset.toInt),
      ("Imm", .unsigned "uint64" r.immediate.toNat)]

/-- The parts of a message descriptor. -/
def Descriptor.value (d : Descriptor) : Value :=
  .record "isa.Descriptor"
    [("Function", .word d.function), ("Header", .truth d.header), ("Rlen", .word d.responseLength),
      ("Mlen", .word d.messageLength), ("EOT", .truth d.endOfThread)]

/-- A decoded instruction: its assembly text, or its parts. There is room for three sources. -/
def Decoded.value (d : Decoded) : Value :=
  .titled d.text
    (.record "isa.Decoded"
      [("Opcode", .byte "isa.Opcode" d.opcode.code), ("ExecSize", .int d.execSize),
        ("AccessMode", .word d.accessMode), ("Quarter", .word d.quarter),
        ("NoMask", .truth d.noMask), ("Predicate", .word d.predicate),
        ("PredInv", .truth d.predInvert), ("Flag", .word d.flag), ("SubFlag", .word d.subFlag),
        ("CondMod", .word d.condition), ("Saturate", .truth d.saturate), ("Dst", d.dst.value),
        ("Writemask", .word d.writemask),
        ("Src", .row "[3]isa.Register"
          ((List.range 3).map fun i => ((d.sources[i]?).getD {}).value)),
        ("NumSrc", .int d.sources.length),
        ("SFID", .byte "isa.SFID" ((d.message.map (·.target.code)).getD 0)),
        ("Desc", ((d.message.map Message.descriptor).getD {}).value)])

end GpuCodegen.Native
