import GpuCodegen.Native.Decoded

/-!
Commands to the assembler: one for each kind of instruction or message it can produce.
-/

namespace GpuCodegen

open Native

/-- One-source operations. -/
inductive UnaryOp where
  | mov
  | not
  deriving DecidableEq, Repr

/-- The opcode of a one-source operation. -/
def UnaryOp.opcode : UnaryOp → Native.Opcode
  | .mov => .mov
  | .not => .not

/-- Two-source operations. -/
inductive BinaryOp where
  | add | mul | and | or | xor | shl
  /-- Logical shift to the right. -/
  | shr
  /-- Arithmetic shift to the right. -/
  | asr
  /-- Lanes whose predicate is set take the first source, the others the second. -/
  | sel
  deriving DecidableEq, Repr

/-- The opcode of a two-source operation. -/
def BinaryOp.opcode : BinaryOp → Native.Opcode
  | .add => .add
  | .mul => .mul
  | .and => .and
  | .or => .or
  | .xor => .xor
  | .shl => .shl
  | .shr => .shr
  | .asr => .asr
  | .sel => .sel

/-- Every two-source operation. -/
def BinaryOp.all : List BinaryOp := [.add, .mul, .and, .or, .xor, .shl, .shr, .asr, .sel]

/-- The two-source operation with a given assembly name. -/
def BinaryOp.ofName? (text : String) : Option BinaryOp :=
  all.find? fun op => op.opcode.name == text

/-- Three-source operations. -/
inductive TernaryOp where
  /-- The first source plus the product of the others. -/
  | mad
  /-- Interpolation between the last two sources by the first. -/
  | lrp
  deriving DecidableEq, Repr

/-- The opcode of a three-source operation. -/
def TernaryOp.opcode : TernaryOp → Native.Opcode
  | .mad => .mad
  | .lrp => .lrp

/-- A request to the assembler. -/
inductive Command where
  | unary (op : UnaryOp) (dst src : Register)
  | binary (op : BinaryOp) (dst src0 src1 : Register)
  /-- Compares and writes the flag register of the current state. -/
  | compare (condition : UInt32) (dst src0 src1 : Register)
  | ternary (op : TernaryOp) (dst src0 src1 src2 : Register)
  | nop
  /-- A jump by a distance in bytes from the next instruction. -/
  | jump (distance : Int32)
  | send (target : SharedFunction) (dst payload : Register) (descriptor : Descriptor)
  /-- Tells the gateway that this thread reached the barrier named in the payload. -/
  | barrier (payload : Register)
  /-- Blocks until the notification register is signalled. -/
  | wait
  /-- Orders earlier memory accesses; a destination other than null receives the commit. -/
  | fence (dst payload : Register) (flushImages : Bool)
  /-- Invalidates the sampler cache. -/
  | flushSampler (dst payload : Register)
  /-- An atomic on a surface; a null destination discards the old values. -/
  | atomic (function : UInt32) (dst payload : Register) (surface : UInt8) (length : UInt32)
  /-- Loads dwords per lane from a surface. -/
  | untypedRead (dst address : Register) (surface : UInt8) (elements : Int)
  /-- Stores dwords per lane to a surface. -/
  | untypedWrite (payload : Register) (surface : UInt8) (elements : Int)
  /-- Reads registers from scratch memory. -/
  | scratchRead (dst header : Register) (offset : UInt32) (registers : Int)
  /-- Writes the registers after the header to scratch memory. -/
  | scratchWrite (header : Register) (offset : UInt32) (registers : Int)
  /-- Sends a message to the motion estimation engine. -/
  | motion (message : UInt32) (dst payload : Register) (surface : UInt8)
  /-- Copies the thread header to the last register and ends the thread. -/
  | endThread
  deriving DecidableEq, Repr

namespace Command

/-- A move. -/
def mov (dst src : Register) : Command := .unary .mov dst src

/-- An addition. -/
def add (dst src0 src1 : Register) : Command := .binary .add dst src0 src1

/-- A multiplication. -/
def mul (dst src0 src1 : Register) : Command := .binary .mul dst src0 src1

/-- A bitwise conjunction. -/
def and (dst src0 src1 : Register) : Command := .binary .and dst src0 src1

/-- A shift to the left. -/
def shl (dst src0 src1 : Register) : Command := .binary .shl dst src0 src1

/-- A logical shift to the right. -/
def shr (dst src0 src1 : Register) : Command := .binary .shr dst src0 src1

end Command

end GpuCodegen
