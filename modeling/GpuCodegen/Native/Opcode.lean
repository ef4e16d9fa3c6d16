/-!
Hardware opcodes and the shared functions that messages address.
-/

namespace GpuCodegen.Native

/-- The seven-bit hardware opcode. -/
inductive Opcode where
  | mov | sel | not | and | or | xor | shr | shl | asr | cmp | jmpi | wait | send | add | mul
  | mad | lrp | nop
  /-- A number that names no known operation. -/
  | unlisted (code : UInt8)
  deriving DecidableEq, Repr, Inhabited

namespace Opcode

/-- Every known operation. -/
def all : List Opcode :=
  [.mov, .sel, .not, .and, .or, .xor, .shr, .shl, .asr, .cmp, .jmpi, .wait, .send, .add, .mul,
    .mad, .lrp, .nop]

/-- The number of an opcode. -/
def code : Opcode → UInt8
  | .mov => 1
  | .sel => 2
  | .not => 4
  | .and => 5
  | .or => 6
  | .xor => 7
  | .shr => 8
  | .shl => 9
  | .asr => 12
  | .cmp => 16
  | .jmpi => 32
  | .wait => 48
  | .send => 49
  | .add => 64
  | .mul => 65
  | .mad => 91
  | .lrp => 92
  | .nop => 126
  | .unlisted c => c

/-- The opcode with a given number. -/
def ofCode (c : UInt8) : Opcode :=
  (all.find? fun op => op.code == c).getD (.unlisted c)

/-- The assembly name of an opcode. -/
def name : Opcode → String
  | .mov => "mov"
  | .sel => "sel"
  | .not => "not"
  | .and => "and"
  | .or => "or"
  | .xor => "xor"
  | .shr => "shr"
  | .shl => "shl"
  | .asr => "asr"
  | .cmp => "cmp"
  | .jmpi => "jmpi"
  | .wait => "wait"
  | .send => "send"
  | .add => "add"
  | .mul => "mul"
  | .mad => "mad"
  | .lrp => "lrp"
  | .nop => "nop"
  | .unlisted c => s!"opcode({c})"

/-- Whether the operation uses the three-source layout. -/
def isThreeSource (op : Opcode) : Bool := op == .mad || op == .lrp

/-- How many source operands the operation reads. -/
def sources : Opcode → Nat
  | .mov | .not | .wait => 1
  | .mad | .lrp => 3
  | .nop => 0
  | _ => 2

end Opcode

/-- The shared function a message is sent to. -/
inductive SharedFunction where
  | null | sampler | gateway | samplerCache | renderCache | urb | threadSpawner | constantCache
  /-- The first data cache. -/
  | dataCache0
  /-- The second data cache. -/
  | dataCache1
  /-- Motion estimation, check and refinement. -/
  | checkRefine
  /-- A number that names no shared function. -/
  | unlisted (code : UInt8)
  deriving DecidableEq, Repr, Inhabited

namespace SharedFunction

/-- Every known shared function. -/
def all : List SharedFunction :=
  [.null, .sampler, .gateway, .samplerCache, .renderCache, .urb, .threadSpawner, .constantCache,
    .dataCache0, .dataCache1, .checkRefine]

/-- The number of a shared function. -/
def code : SharedFunction → UInt8
  | .null => 0
  | .sampler => 2
  | .gateway => 3
  | .samplerCache => 4
  | .renderCache => 5
  | .urb => 6
  | .threadSpawner => 7
  | .constantCache => 9
  | .dataCache0 => 10
  | .dataCache1 => 12
  | .checkRefine => 13
  | .unlisted c => c

/-- The shared function with a given number. -/
def ofCode (c : UInt8) : SharedFunction :=
  (all.find? fun f => f.code == c).getD (.unlisted c)

/-- The assembly name of a shared function. -/
def name : SharedFunction → String
  | .null => "null"
  | .sampler => "sampler"
  | .gateway => "gateway"
  | .samplerCache => "dp_sampler"
  | .renderCache => "dp_render"
  | .urb => "urb"
  | .threadSpawner => "spawner"
  | .constantCache => "dp_const"
  | .dataCache0 => "dp_dc0"
  | .dataCache1 => "dp_dc1"
  | .checkRefine => "cre"
  | .unlisted c => s!"sfid({c})"

end SharedFunction

end GpuCodegen.Native
