/-!
The operations of kernel instructions: selected device-level operations, the forms that lowering and
allocation produce, atomics, comparisons and motion estimation messages.
-/

namespace GpuCodegen

/-- The operation of a kernel instruction. -/
inductive Opcode where
  | nop | mov | not | add | mul
  /-- High 64 bits of an unsigned 64 by 64 product. -/
  | mulHi
  | and | or | xor | shl | shr | asr | mad | lrp | barrier | atomic
  /-- Untyped surface read. -/
  | load
  /-- Untyped surface write. -/
  | store
  | indirectMov | label | jump
  /-- End of thread. -/
  | endThread
  | compare
  /-- Chooses by the flag register. -/
  | select
  /-- Motion estimation. -/
  | motion
  /-- The low half of a 64-bit product through dword products. -/
  | mul64
  /-- The high half of a 64-bit product through dword products. -/
  | mulHi64
  /-- An atomic on a prepared payload. -/
  | atomicMessage
  /-- An untyped write of a prepared payload. -/
  | storeMessage
  /-- Computes the stack pointer of every lane. -/
  | stackSetup
  /-- Reads a register back from scratch memory. -/
  | reload
  /-- Writes a register to scratch memory. -/
  | spill
  /-- Motion estimation on a staged payload. -/
  | motionMessage
  /-- A number outside the list. -/
  | unlisted (code : UInt8)
  deriving DecidableEq, Repr, Inhabited

namespace Opcode

/-- Every listed operation, in numbering order. -/
def all : List Opcode :=
  [.nop, .mov, .not, .add, .mul, .mulHi, .and, .or, .xor, .shl, .shr, .asr, .mad, .lrp, .barrier,
    .atomic, .load, .store, .indirectMov, .label, .jump, .endThread, .compare, .select, .motion,
    .mul64, .mulHi64, .atomicMessage, .storeMessage, .stackSetup, .reload, .spill, .motionMessage]

/-- The operation with a given number. -/
def ofCode (code : UInt8) : Opcode := (all[code.toNat]?).getD (.unlisted code)

/-- The name of an operation. -/
def name : Opcode → String
  | .nop => "nop"
  | .mov => "mov"
  | .not => "not"
  | .add => "add"
  | .mul => "mul"
  | .mulHi => "mul_hi"
  | .and => "and"
  | .or => "or"
  | .xor => "xor"
  | .shl => "shl"
  | .shr => "shr"
  | .asr => "asr"
  | .mad => "mad"
  | .lrp => "lrp"
  | .barrier => "barrier"
  | .atomic => "atomic"
  | .load => "load"
  | .store => "store"
  | .indirectMov => "mov_indirect"
  | .label => "label"
  | .jump => "jmpi"
  | .endThread => "eot"
  | .compare => "cmp"
  | .select => "sel"
  | .motion => "ime"
  | .mul64 => "i64_mul"
  | .mulHi64 => "i64_mul_hi"
  | .atomicMessage => "atomic_msg"
  | .storeMessage => "store_msg"
  | .stackSetup => "stack_setup"
  | .reload => "reload"
  | .spill => "spill"
  | .motionMessage => "ime_msg"
  | .unlisted c => s!"op({c})"

/-- The operation with a given name. -/
def ofName? (text : String) : Option Opcode :=
  all.find? fun op => op.name == text

/-- Whether the operation takes three sources on the three-source unit. -/
def isThreeSource (op : Opcode) : Bool := op == .mad || op == .lrp

end Opcode

/-- The memory that a barrier fences first, as a set of bits. -/
structure Fences where
  bits : UInt8
  deriving DecidableEq, Repr, Inhabited

namespace Fences

/-- Whether global memory is fenced. -/
def global (f : Fences) : Bool := f.bits &&& 2 != 0

/-- Whether image memory is fenced. -/
def image (f : Fences) : Bool := f.bits &&& 4 != 0

end Fences

/-- An untyped atomic operation. -/
inductive AtomicOp where
  | and | or | xor | exchange | increment | decrement | add | sub | reverseSub | signedMax
  | signedMin | unsignedMax | unsignedMin | compareExchange
  /-- A number outside the list. -/
  | unlisted (code : UInt8)
  deriving DecidableEq, Repr, Inhabited

namespace AtomicOp

/-- Every listed atomic operation; the first has number one. -/
def all : List AtomicOp :=
  [.and, .or, .xor, .exchange, .increment, .decrement, .add, .sub, .reverseSub, .signedMax,
    .signedMin, .unsignedMax, .unsignedMin, .compareExchange]

/-- The number of an atomic operation, which is also its message function. -/
def code : AtomicOp → UInt8
  | .and => 1
  | .or => 2
  | .xor => 3
  | .exchange => 4
  | .increment => 5
  | .decrement => 6
  | .add => 7
  | .sub => 8
  | .reverseSub => 9
  | .signedMax => 10
  | .signedMin => 11
  | .unsignedMax => 12
  | .unsignedMin => 13
  | .compareExchange => 14
  | .unlisted c => c

/-- The atomic operation with a given number. -/
def ofCode (c : UInt8) : AtomicOp := (all.find? fun a => a.code == c).getD (.unlisted c)

/-- The name of an atomic operation. -/
def name : AtomicOp → String
  | .and => "and"
  | .or => "or"
  | .xor => "xor"
  | .exchange => "xchg"
  | .increment => "inc"
  | .decrement => "dec"
  | .add => "add"
  | .sub => "sub"
  | .reverseSub => "revsub"
  | .signedMax => "imax"
  | .signedMin => "imin"
  | .unsignedMax => "umax"
  | .unsignedMin => "umin"
  | .compareExchange => "cmpxchg"
  | .unlisted _ => "unknown"

/-- Whether the operation is a listed one. -/
def isListed : AtomicOp → Bool
  | .unlisted _ => false
  | _ => true

/-- How many data operands the operation takes besides the address. -/
def operands : AtomicOp → Nat
  | .increment | .decrement => 0
  | .compareExchange => 2
  | _ => 1

end AtomicOp

/-- A motion estimation message. -/
inductive Motion where
  /-- Skip and intra check. -/
  | sic
  /-- Integer motion estimation. -/
  | ime
  /-- Fractional and bidirectional refinement. -/
  | fbr
  /-- A number outside the list. -/
  | unlisted (code : UInt8)
  deriving DecidableEq, Repr, Inhabited

namespace Motion

/-- The number of a motion estimation message. -/
def code : Motion → UInt8
  | .sic => 1
  | .ime => 2
  | .fbr => 3
  | .unlisted c => c

/-- The motion estimation message with a given number. -/
def ofCode (c : UInt8) : Motion :=
  if c = 1 then .sic else if c = 2 then .ime else if c = 3 then .fbr else .unlisted c

/-- The name of a motion estimation message. -/
def name : Motion → String
  | .sic => "sic"
  | .ime => "ime"
  | .fbr => "fbr"
  | .unlisted _ => "unknown"

/-- How many registers the message payload takes; an unlisted message has none. -/
def payloadRegs : Motion → Nat
  | .sic | .fbr => 8
  | .ime => 6
  | .unlisted _ => 0

/-- How many registers every response takes. -/
def responseRegs : Nat := 7

end Motion

/-- The relation a comparison tests. -/
inductive Condition where
  | eq | ne | gt | ge | lt | le
  /-- A number outside the list. -/
  | unlisted (code : UInt8)
  deriving DecidableEq, Repr, Inhabited

namespace Condition

/-- The number of a condition, which is also its hardware code. -/
def code : Condition → UInt8
  | .eq => 1
  | .ne => 2
  | .gt => 3
  | .ge => 4
  | .lt => 5
  | .le => 6
  | .unlisted c => c

/-- The condition with a given number. -/
def ofCode (c : UInt8) : Condition :=
  (([.eq, .ne, .gt, .ge, .lt, .le] : List Condition).find? fun x => x.code == c).getD (.unlisted c)

/-- The name of a condition. -/
def name : Condition → String
  | .eq => "eq"
  | .ne => "ne"
  | .gt => "gt"
  | .ge => "ge"
  | .lt => "lt"
  | .le => "le"
  | .unlisted _ => "?"

/-- Whether the condition is a listed one. -/
def isListed : Condition → Bool
  | .unlisted _ => false
  | _ => true

end Condition

end GpuCodegen
