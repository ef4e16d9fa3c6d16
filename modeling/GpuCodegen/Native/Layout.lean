import GpuCodegen.Native.DataType
import GpuCodegen.Native.Field
import GpuCodegen.Target.Generation

/-!
The two bit layouts of instruction words. The same 128 bits are read through different fields
depending on whether operands are addressed directly or indirectly, whether a source is an
immediate, and whether the word is a message or a three-source instruction. `Layout.ofGeneration`
picks the layout a generation encodes with.
-/

namespace GpuCodegen.Native

/-- Generations that share one layout. -/
inductive Family where
  | gen7
  | gen8
  deriving DecidableEq, Repr

namespace Family

/-- The name of a family. -/
def name : Family → String
  | .gen7 => "gen7"
  | .gen8 => "gen8"

/-- The family with a given number; every number but one means the older family. -/
def ofCode (code : UInt8) : Family := if code = 1 then .gen8 else .gen7

end Family

/-- The fields of the instruction header. -/
structure HeaderFields where
  opcode : Field
  accessMode : Field
  maskControl : Field
  depControl : Field
  quarterControl : Field
  nibControl : Field
  threadControl : Field
  predControl : Field
  predInvert : Field
  execSize : Field
  /-- The condition of a comparison, or the shared function of a message. -/
  condition : Field
  accWrite : Field
  compaction : Field
  debug : Field
  saturate : Field
  flagReg : Field
  flagSubreg : Field

/-- The fields of the destination. -/
structure DestinationFields where
  file : Field
  type : Field
  addressMode : Field
  number : Field
  sub : Field
  horizontal : Field
  indirect : SplitField
  addressEntry : Field
  writemask : Field
  sub16 : Field

/-- The fields of a source of one- and two-source instructions. -/
structure SourceFields where
  file : Field
  type : Field
  number : Field
  sub : Field
  abs : Field
  neg : Field
  addressMode : Field
  horizontal : Field
  width : Field
  vertical : Field

/-- The fields of a message descriptor, which takes the place of the second source. -/
structure DescriptorFields where
  function : Field
  header : Field
  responseLength : Field
  messageLength : Field
  endOfThread : Field

/-- The fields of one source of a three-source instruction. -/
structure TripleSourceFields where
  abs : Field
  neg : Field
  replicate : Field
  swizzle : Field
  /-- In dwords. -/
  sub : Field
  number : Field

/-- The fields of three-source instructions. -/
structure TripleFields where
  dstFile : Field
  flagReg : Field
  flagSubreg : Field
  srcType : Field
  dstType : Field
  writemask : Field
  /-- In dwords. -/
  dstSub : Field
  dstNumber : Field
  src0 : TripleSourceFields
  src1 : TripleSourceFields
  src2 : TripleSourceFields

/-- The three sources in order. -/
def TripleFields.sources (t : TripleFields) : List TripleSourceFields := [t.src0, t.src1, t.src2]

/-- All fields of one family, and its type codes. -/
structure Layout where
  family : Family
  header : HeaderFields
  dst : DestinationFields
  src0 : SourceFields
  src0Indirect : SplitField
  src0AddressEntry : Field
  src1 : SourceFields
  imm32 : Field
  /-- The low dword of a 64-bit immediate, where the family has them. -/
  imm64Low : Field
  descriptor : DescriptorFields
  triple : TripleFields
  registerTypes : List (DataType × UInt32)
  immediateTypes : List (DataType × UInt32)
  tripleTypes : List (DataType × UInt32)

namespace Layout

/-- The layout of generations before Broadwell. -/
def gen7 : Layout where
  family := .gen7
  header :=
    { opcode := ⟨6, 0⟩, accessMode := .bit 8, maskControl := .bit 9, depControl := ⟨11, 10⟩,
      quarterControl := ⟨13, 12⟩, nibControl := .bit 47, threadControl := ⟨15, 14⟩,
      predControl := ⟨19, 16⟩, predInvert := .bit 20, execSize := ⟨23, 21⟩, condition := ⟨27, 24⟩,
      accWrite := .bit 28, compaction := .bit 29, debug := .bit 30, saturate := .bit 31,
      flagReg := .bit 90, flagSubreg := .bit 89 }
  dst :=
    { file := ⟨33, 32⟩, type := ⟨36, 34⟩, addressMode := .bit 63, number := ⟨60, 53⟩,
      sub := ⟨52, 48⟩, horizontal := ⟨62, 61⟩, indirect := ⟨⟨57, 48⟩, .absent⟩,
      addressEntry := ⟨60, 58⟩, writemask := ⟨51, 48⟩, sub16 := .bit 52 }
  src0 :=
    { file := ⟨38, 37⟩, type := ⟨41, 39⟩, number := ⟨76, 69⟩, sub := ⟨68, 64⟩, abs := .bit 77,
      neg := .bit 78, addressMode := .bit 79, horizontal := ⟨81, 80⟩, width := ⟨84, 82⟩,
      vertical := ⟨88, 85⟩ }
  src0Indirect := ⟨⟨73, 64⟩, .absent⟩
  src0AddressEntry := ⟨76, 74⟩
  src1 :=
    { file := ⟨43, 42⟩, type := ⟨46, 44⟩, number := ⟨108, 101⟩, sub := ⟨100, 96⟩, abs := .bit 109,
      neg := .bit 110, addressMode := .bit 111, horizontal := ⟨113, 112⟩, width := ⟨116, 114⟩,
      vertical := ⟨120, 117⟩ }
  imm32 := ⟨127, 96⟩
  imm64Low := .absent
  descriptor :=
    { function := ⟨114, 96⟩, header := .bit 115, responseLength := ⟨120, 116⟩,
      messageLength := ⟨124, 121⟩, endOfThread := .bit 127 }
  triple :=
    { dstFile := .bit 32, flagReg := .bit 34, flagSubreg := .bit 33, srcType := ⟨43, 42⟩,
      dstType := ⟨45, 44⟩, writemask := ⟨52, 49⟩, dstSub := ⟨55, 53⟩, dstNumber := ⟨63, 56⟩,
      src0 :=
        { abs := .bit 36, neg := .bit 37, replicate := .bit 64, swizzle := ⟨72, 65⟩,
          sub := ⟨75, 73⟩, number := ⟨83, 76⟩ },
      src1 :=
        { abs := .bit 38, neg := .bit 39, replicate := .bit 85, swizzle := ⟨93, 86⟩,
          sub := ⟨96, 94⟩, number := ⟨104, 97⟩ },
      src2 :=
        { abs := .bit 40, neg := .bit 41, replicate := .bit 106, swizzle := ⟨114, 107⟩,
          sub := ⟨117, 115⟩, number := ⟨125, 118⟩ } }
  registerTypes :=
    [(.ud, 0), (.d, 1), (.uw, 2), (.w, 3), (.ub, 4), (.b, 5), (.df, 6), (.f, 7)]
  immediateTypes := [(.ud, 0), (.d, 1), (.uw, 2), (.w, 3), (.v, 6), (.f, 7)]
  tripleTypes := [(.f, 0), (.d, 1), (.ud, 2), (.df, 3)]

/-- The layout of Broadwell and everything newer. -/
def gen8 : Layout where
  family := .gen8
  header :=
    { gen7.header with
      maskControl := .bit 34, depControl := ⟨10, 9⟩, nibControl := .bit 11, flagReg := .bit 33,
      flagSubreg := .bit 32 }
  dst :=
    { gen7.dst with
      file := ⟨36, 35⟩, type := ⟨40, 37⟩, indirect := ⟨⟨56, 48⟩, .bit 47⟩,
      addressEntry := ⟨60, 57⟩ }
  src0 := { gen7.src0 with file := ⟨42, 41⟩, type := ⟨46, 43⟩ }
  src0Indirect := ⟨⟨72, 64⟩, .bit 95⟩
  src0AddressEntry := ⟨76, 73⟩
  src1 := { gen7.src1 with file := ⟨90, 89⟩, type := ⟨94, 91⟩ }
  imm32 := gen7.imm32
  imm64Low := ⟨95, 64⟩
  descriptor := gen7.descriptor
  triple :=
    { gen7.triple with
      dstFile := .absent, flagReg := .bit 33, flagSubreg := .bit 32, srcType := ⟨45, 43⟩,
      dstType := ⟨48, 46⟩,
      src0 := { gen7.triple.src0 with abs := .bit 37, neg := .bit 38 },
      src1 := { gen7.triple.src1 with abs := .bit 39, neg := .bit 40 },
      src2 := { gen7.triple.src2 with abs := .bit 41, neg := .bit 42 } }
  registerTypes :=
    [(.ud, 0), (.d, 1), (.uw, 2), (.w, 3), (.ub, 4), (.b, 5), (.df, 6), (.f, 7), (.ul, 8),
      (.l, 9), (.hf, 10)]
  immediateTypes :=
    [(.ud, 0), (.d, 1), (.uw, 2), (.w, 3), (.v, 6), (.f, 7), (.ul, 8), (.l, 9), (.df, 10),
      (.hf, 11)]
  tripleTypes := [(.f, 0), (.d, 1), (.ud, 2), (.df, 3), (.hf, 4)]

/-- The layout a generation encodes with. -/
def ofGeneration (g : Generation) : Layout :=
  if g.isGen8Family then gen8 else gen7

/-- Whether a first source immediate may take 64 bits. -/
def hasImm64 (l : Layout) : Bool := l.imm64Low.present

/-- The code of a type in a list of codes. -/
def codeOf? (codes : List (DataType × UInt32)) (t : DataType) : Option UInt32 :=
  (codes.find? fun entry => entry.1 == t).map (·.2)

/-- The type of a code in a list of codes. -/
def typeOf? (codes : List (DataType × UInt32)) (code : UInt32) : Option DataType :=
  (codes.find? fun entry => entry.2 == code).map (·.1)

/-- The names of a three-source operand's fields. -/
def tripleSourceTable (source : String) (f : TripleSourceFields) : List (String × Field) :=
  [("t3_" ++ source ++ "_abs", f.abs), ("t3_" ++ source ++ "_neg", f.neg),
    ("t3_" ++ source ++ "_rep", f.replicate), ("t3_" ++ source ++ "_swizzle", f.swizzle),
    ("t3_" ++ source ++ "_subreg", f.sub), ("t3_" ++ source ++ "_nr", f.number)]

/-- The names of a source's fields. -/
def sourceTable (source : String) (f : SourceFields) : List (String × Field) :=
  [(source ++ "_file", f.file), (source ++ "_type", f.type), (source ++ "_nr", f.number),
    (source ++ "_subreg", f.sub), (source ++ "_abs", f.abs), (source ++ "_neg", f.neg),
    (source ++ "_addr_mode", f.addressMode), (source ++ "_hstride", f.horizontal),
    (source ++ "_width", f.width), (source ++ "_vstride", f.vertical)]

/-- Every field of the layout with its name, for dumps. -/
def table (l : Layout) : List (String × Field) :=
  [("opcode", l.header.opcode), ("access_mode", l.header.accessMode),
    ("mask_control", l.header.maskControl), ("dep_control", l.header.depControl),
    ("qtr_control", l.header.quarterControl), ("nib_control", l.header.nibControl),
    ("thread_control", l.header.threadControl), ("pred_control", l.header.predControl),
    ("pred_inv", l.header.predInvert), ("exec_size", l.header.execSize),
    ("cond_mod", l.header.condition), ("acc_wr", l.header.accWrite),
    ("cmpt", l.header.compaction), ("debug", l.header.debug), ("saturate", l.header.saturate),
    ("flag_reg", l.header.flagReg), ("flag_subreg", l.header.flagSubreg),
    ("dst_file", l.dst.file), ("dst_type", l.dst.type), ("dst_addr_mode", l.dst.addressMode),
    ("dst_nr", l.dst.number), ("dst_subreg", l.dst.sub), ("dst_hstride", l.dst.horizontal),
    ("dst_ia_low", l.dst.indirect.low), ("dst_ia_high", l.dst.indirect.high),
    ("dst_a0_subreg", l.dst.addressEntry), ("dst_writemask", l.dst.writemask),
    ("dst_subreg16", l.dst.sub16)] ++
  sourceTable "src0" l.src0 ++
  [("src0_ia_low", l.src0Indirect.low), ("src0_ia_high", l.src0Indirect.high),
    ("src0_a0_subreg", l.src0AddressEntry)] ++
  sourceTable "src1" l.src1 ++
  [("imm32", l.imm32), ("imm64_low", l.imm64Low), ("desc_function", l.descriptor.function),
    ("desc_header", l.descriptor.header), ("desc_rlen", l.descriptor.responseLength),
    ("desc_mlen", l.descriptor.messageLength), ("desc_eot", l.descriptor.endOfThread),
    ("t3_dst_file", l.triple.dstFile), ("t3_flag_reg", l.triple.flagReg),
    ("t3_flag_subreg", l.triple.flagSubreg), ("t3_src_type", l.triple.srcType),
    ("t3_dst_type", l.triple.dstType), ("t3_dst_writemask", l.triple.writemask),
    ("t3_dst_subreg", l.triple.dstSub), ("t3_dst_nr", l.triple.dstNumber)] ++
  tripleSourceTable "src0" l.triple.src0 ++ tripleSourceTable "src1" l.triple.src1 ++
  tripleSourceTable "src2" l.triple.src2

/-- The dump of the layout, ordered by field name. -/
def sortedTable (l : Layout) : List (String × Field) :=
  l.table.mergeSort fun a b => a.1 ≤ b.1

/-- The field with a given name; a name the layout does not know means its lowest bit. -/
def fieldNamed (l : Layout) (name : String) : Field :=
  ((l.table.find? fun entry => entry.1 == name).map (·.2)).getD ⟨0, 0⟩

end Layout

end GpuCodegen.Native
