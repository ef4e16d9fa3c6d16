import GpuCodegen.Native.DataType
import GpuCodegen.Native.Region
import GpuCodegen.Text.Digits

/-!
Physical operands. A `Register` names bytes of a register file through a region, or an immediate,
together with source modifiers. Besides constructors for the usual shapes this module moves
operands by registers, bytes, elements and quarters; `Register.byteOffset` is the view those moves
are described by.
-/

namespace GpuCodegen.Native

/-- The size in bytes of one general register. -/
def grfSize : UInt32 := 32

/-- The number of general registers every generation addresses. -/
def maxGrf : UInt32 := 128

/-- Where an indirect operand takes its byte address from. -/
structure Address where
  /-- The address register entry that holds the base. -/
  entry : UInt32
  /-- The byte offset added to it. -/
  offset : Int32
  deriving DecidableEq, Repr

/-- A physical operand. -/
structure Register where
  file : RegFile := .arf
  type : DataType := .ud
  /-- The register number. -/
  number : UInt32 := 0
  /-- The byte offset inside the register. -/
  sub : UInt32 := 0
  region : Region := .scalar
  negate : Bool := false
  absolute : Bool := false
  /-- The address of an indirect operand. -/
  indirect : Option Address := none
  /-- The bits of an immediate. -/
  immediate : UInt64 := 0
  deriving DecidableEq, Repr, Inhabited

namespace Register

/-- A general register operand with a region given in element counts. -/
def vec (number sub : UInt32) (t : DataType) (vertical width horizontal : Int) : Register where
  file := .grf
  type := t
  number := number
  sub := sub
  region := .ofCounts vertical width horizontal

/-- A scalar operand. -/
def vec1 (number sub : UInt32) (t : DataType) : Register := vec number sub t 0 1 0

/-- Eight consecutive lanes. -/
def vec8 (number sub : UInt32) (t : DataType) : Register := vec number sub t 8 8 1

/-- Sixteen consecutive lanes. Dwords and wider run over consecutive registers in rows of eight. -/
def vec16 (number sub : UInt32) (t : DataType) : Register :=
  if 4 ≤ t.size then vec number sub t 8 8 1 else vec number sub t 16 16 1

/-- Eight dwords of a general register. -/
def ud8 (number sub : UInt32) : Register := vec8 number sub .ud

/-- One dword of a general register. -/
def ud1 (number sub : UInt32) : Register := vec1 number sub .ud

/-- One byte of a general register. -/
def ub1 (number sub : UInt32) : Register := vec1 number sub .ub

/-- Views a register as every other element of half the width, so that an element sits in the low
half of each wider lane. -/
def unpacked (r : Register) (t : DataType) : Register :=
  { r with type := t, region := .ofCounts 16 8 2 }

/-- The low (part 0) or high (part 1) dwords of a qword register. -/
def unpackedDwords (r : Register) (part : UInt32) : Register :=
  let u := r.unpacked .ud
  { u with sub := u.sub + 4 * part }

/-- The low words of a dword register. -/
def unpackedWords (r : Register) : Register := r.unpacked .uw

/-- An immediate with given bits. -/
def imm (t : DataType) (bits : UInt64) : Register where
  file := .imm
  type := t
  immediate := bits

/-- An unsigned dword immediate. -/
def immUD (v : UInt32) : Register := imm .ud v.toUInt64

/-- A signed dword immediate. -/
def immD (v : UInt32) : Register := imm .d v.toUInt64

/-- An unsigned qword immediate. -/
def immUL (v : UInt64) : Register := imm .ul v

/-- A signed qword immediate. -/
def immL (v : UInt64) : Register := imm .l v

/-- A packed vector immediate. -/
def immV (v : UInt32) : Register := imm .v v.toUInt64

/-- A float immediate by its bits. -/
def immF (bits : UInt32) : Register := imm .f bits.toUInt64

/-- A double immediate by its bits. -/
def immDF (bits : UInt64) : Register := imm .df bits

/-- Word immediates repeat the word in both halves of the dword. -/
def replicated (v : UInt16) : UInt64 := v.toUInt64 ||| (v.toUInt64 <<< 16)

/-- An unsigned word immediate. -/
def immUW (v : UInt16) : Register := imm .uw (replicated v)

/-- A signed word immediate. -/
def immW (v : UInt16) : Register := imm .w (replicated v)

/-- One element of an architecture register. -/
def arf1 (number sub : UInt32) (t : DataType) : Register :=
  { vec1 number sub t with file := .arf }

/-- The null register. -/
def null : Register := { vec8 0 0 .ud with file := .arf }

/-- The architecture register number of the address register. -/
def addressNumber : UInt32 := 0x10

/-- One word of the address register. -/
def addr1 (entry : UInt32) : Register := arf1 addressNumber (entry * 2) .uw

/-- Eight words of the address register. -/
def addr8 (entry : UInt32) : Register := { vec8 addressNumber (entry * 2) .uw with file := .arf }

/-- The notification register that a wait blocks on. -/
def notification (sub : UInt32) : Register := arf1 0x90 sub .ud

/-- The instruction pointer. -/
def instructionPointer : Register := arf1 0xa0 0 .ud

/-- A source that fetches each lane from the byte address in its own address register entry. -/
def gather (t : DataType) (entry : UInt32) (offset : Int32) : Register where
  file := .grf
  type := t
  region := ⟨Region.perLane, 0, 0⟩
  indirect := some ⟨entry, offset⟩

/-- The operand with another element type. -/
def retype (r : Register) (t : DataType) : Register := { r with type := t }

/-- The operand with its negation flipped; an immediate has none. -/
def negated (r : Register) : Register :=
  if r.file = .imm then r else { r with negate := !r.negate }

/-- Moves the operand by registers and bytes; whole registers carry over into the number. -/
def offset (r : Register) (registers bytes : UInt32) : Register :=
  let sub := r.sub + bytes
  { r with number := r.number + (registers + sub / grfSize), sub := sub % grfSize }

/-- Whether every lane reads the same element. -/
def isScalar (r : Register) : Bool :=
  r.file != .imm && r.indirect.isNone && r.region == .scalar

/-- Whether the operand is the null register. -/
def isNull (r : Register) : Bool := r.file == .arf && r.number == 0

/-- The byte address of a directly addressed general register operand. -/
def byteOffset (r : Register) : UInt32 := r.number * grfSize + r.sub

/-- The distance in bytes between neighbouring elements of a row. -/
def elementStep (r : Register) : UInt32 :=
  UInt32.ofNat r.type.size * UInt32.ofInt (max (strideElems r.region.horizontal) 1)

/-- Moves the operand by a number of elements; a scalar stays. -/
def suboffset (r : Register) (elems : UInt32) : Register :=
  if r.isScalar then r else r.offset 0 (elems * r.elementStep)

/-- The eight-lane quarter `q` of a vector operand. -/
def quarter (r : Register) (q : UInt32) : Register :=
  if r.isScalar then r else r.suboffset (8 * q)

/-- The operand with every lane reading its first element. -/
def toScalar (r : Register) : Register := { r with region := .scalar }

/-- The letter in front of a register number. -/
def fileLetter : RegFile → String
  | .grf => "r"
  | .mrf => "m"
  | _ => ""

/-- Where a directly addressed operand is. -/
def place (r : Register) : String :=
  if r.isNull then
    "null"
  else if r.file = .arf then
    "arf0x" ++ Text.hexPadded 2 r.number.toNat ++ s!".{r.sub}"
  else
    fileLetter r.file ++ s!"{r.number}.{r.sub / UInt32.ofNat (max r.type.size 1)}"

/-- The assembly text of an operand. -/
def text (r : Register) : String :=
  let modifiers := (if r.negate then "-" else "") ++ (if r.absolute then "(abs)" else "")
  if r.file = .imm then
    modifiers ++ "0x" ++ Text.hex r.immediate.toNat ++ ":" ++ r.type.name
  else
    match r.indirect with
    | some a => modifiers ++ s!"r[a0.{a.entry},{a.offset}]<VxH>:" ++ r.type.name
    | none => modifiers ++ r.place ++ r.region.text ++ ":" ++ r.type.name

end Register

end GpuCodegen.Native
