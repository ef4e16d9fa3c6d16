/-!
Operand element types as the hardware sees them, and the register files operands live in. The
codes written into a word depend on the layout; the numbers here only name the types.
-/

namespace GpuCodegen.Native

/-- The register file an operand lives in. -/
inductive RegFile where
  /-- Architecture registers. -/
  | arf
  /-- General registers. -/
  | grf
  /-- Message registers. -/
  | mrf
  /-- No register: the operand is an immediate. -/
  | imm
  /-- A number that names no register file. -/
  | unlisted (code : UInt8)
  deriving DecidableEq, Repr, Inhabited

namespace RegFile

/-- The register file with a given number. -/
def ofCode (code : UInt8) : RegFile :=
  match code.toNat with
  | 0 => .arf
  | 1 => .grf
  | 2 => .mrf
  | 3 => .imm
  | _ => .unlisted code

/-- The number of a register file. -/
def code : RegFile → UInt8
  | .arf => 0
  | .grf => 1
  | .mrf => 2
  | .imm => 3
  | .unlisted c => c

/-- The name of a register file. -/
def name : RegFile → String
  | .arf => "arf"
  | .grf => "grf"
  | .mrf => "mrf"
  | .imm => "imm"
  | .unlisted c => s!"file({c})"

end RegFile

/-- The element type of an operand. -/
inductive DataType where
  | ud | d | uw | w | ub | b | f | df | ul | l | hf
  /-- Eight packed signed four-bit values, for immediates. -/
  | v
  /-- A number that names no type. -/
  | unlisted (code : UInt8)
  deriving DecidableEq, Repr, Inhabited

namespace DataType

/-- Every type of the hardware, in numbering order. -/
def all : List DataType := [.ud, .d, .uw, .w, .ub, .b, .f, .df, .ul, .l, .hf, .v]

/-- The type with a given number. -/
def ofCode (code : UInt8) : DataType :=
  (all[code.toNat]?).getD (.unlisted code)

/-- The number of a type. -/
def code : DataType → UInt8
  | .ud => 0
  | .d => 1
  | .uw => 2
  | .w => 3
  | .ub => 4
  | .b => 5
  | .f => 6
  | .df => 7
  | .ul => 8
  | .l => 9
  | .hf => 10
  | .v => 11
  | .unlisted c => c

/-- The name of a type. -/
def name : DataType → String
  | .ud => "UD"
  | .d => "D"
  | .uw => "UW"
  | .w => "W"
  | .ub => "UB"
  | .b => "B"
  | .f => "F"
  | .df => "DF"
  | .ul => "UL"
  | .l => "L"
  | .hf => "HF"
  | .v => "V"
  | .unlisted c => s!"type({c})"

/-- The type with a given name. -/
def ofName? (text : String) : Option DataType :=
  all.find? fun t => t.name == text

/-- The element size in bytes; an unlisted type has none. -/
def size : DataType → Nat
  | .ub | .b => 1
  | .uw | .w | .hf => 2
  | .ud | .d | .f | .v => 4
  | .df | .ul | .l => 8
  | .unlisted _ => 0

/-- Whether an element takes eight bytes. -/
def is64 (t : DataType) : Bool := t.size == 8

end DataType

end GpuCodegen.Native
