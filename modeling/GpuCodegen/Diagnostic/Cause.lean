import GpuCodegen.Kernel.Element
import GpuCodegen.Kernel.Opcode
import GpuCodegen.Native.Opcode
import GpuCodegen.Target.Generation
import GpuCodegen.Text.ByteSize

/-!
What can go wrong while a kernel is compiled. Every failure has a cause; a cause determines its
category and the message shown.
-/

namespace GpuCodegen

/-- The kind of a diagnostic. -/
inductive Category where
  | unsupported
  | allocation
  | encoding
  | unimplemented
  | config
  /-- A number outside the list. -/
  | unknown
  deriving DecidableEq, Repr

namespace Category

/-- The category with a given number. -/
def ofCode : Int → Category
  | 0 => .unsupported
  | 1 => .allocation
  | 2 => .encoding
  | 3 => .unimplemented
  | 4 => .config
  | _ => .unknown

/-- The name of a category. -/
def name : Category → String
  | .unsupported => "unsupported"
  | .allocation => "allocation"
  | .encoding => "encoding"
  | .unimplemented => "unimplemented"
  | .config => "config"
  | .unknown => "unknown"

/-- What all diagnostics of a category have in common. -/
def summary? : Category → Option String
  | .unsupported => some "unsupported feature"
  | .allocation => some "register allocation failed"
  | .encoding => some "encoding precondition violated"
  | .unimplemented => some "unimplemented generation path"
  | .config => some "invalid configuration"
  | .unknown => none

end Category

/-- Which operand of an instruction is meant. -/
inductive Role where
  | destination
  | source (index : Nat)
  deriving DecidableEq, Repr

/-- The name of an operand's role. -/
def Role.name : Role → String
  | .destination => "destination"
  | .source index => s!"source {index}"

/-- What a generation lacks. -/
inductive Lack where
  | registerType (t : Native.DataType)
  | immediateType (t : Native.DataType)
  | tripleType (t : Native.DataType)
  | tripleOperation (op : Opcode) (t : Element)
  | doubles
  | doubleImmediates
  | halves
  | int64
  | motion
  | qwordPointers
  | atomics64
  | atomic (op : AtomicOp)
  /-- A feature described by its user. -/
  | named (feature : String)
  deriving DecidableEq, Repr

/-- The name of what is lacking. -/
def Lack.name : Lack → String
  | .registerType t => t.name ++ " register operands"
  | .immediateType t => t.name ++ " immediates"
  | .tripleType t => "3-source " ++ t.name ++ " operands"
  | .tripleOperation op t => op.name ++ " with " ++ t.name ++ " operands"
  | .doubles => "double precision operands"
  | .doubleImmediates => "double precision immediates"
  | .halves => "half precision operands"
  | .int64 => "64-bit integer operands"
  | .motion => "motion estimation"
  | .qwordPointers => "64-bit pointers"
  | .atomics64 => "64-bit atomics"
  | .atomic op => "atomic " ++ op.name
  | .named feature => feature

/-- Why registers cannot be placed. -/
inductive PlacementFault where
  /-- A register larger than the part of the register file that is handed out. -/
  | oversized (reg : VReg) (size window : UInt32)
  /-- No free place, and spilling is switched off. -/
  | exhausted (reg : VReg)
  | pinOccupied (reg : VReg) (offset : UInt32)
  | pinHeld (reg : VReg) (offset : UInt32) (holder : VReg)
  | pinGiven (reg : VReg) (offset : UInt32) (last : VReg)
  | scratchLimit (reg : VReg) (needed limit : UInt32)
  | stillSpilling (reg : VReg) (rounds : Nat)
  | reserveFull (position : Nat) (reserve : UInt32)
  | destinationCollides (reg : VReg)
  | scratchBudget (scratch budget : UInt32) (device : String)
  /-- An operand whose register was given no place. -/
  | unplaced (reg : VReg)
  deriving DecidableEq, Repr

/-- What a placement fault says. -/
def PlacementFault.message : PlacementFault → String
  | .oversized reg size window =>
    reg.text ++ " needs " ++ Text.ByteSize.text size.toNat ++ " but only " ++
      Text.ByteSize.text window.toNat ++ " of the register file is allocatable"
  | .exhausted reg => "no free register for " ++ reg.text ++ " and spilling is disabled"
  | .pinOccupied reg offset =>
    s!"{reg.text} is pinned at byte {offset} but the slot is already occupied"
  | .pinHeld reg offset holder =>
    s!"{reg.text} is pinned at byte {offset} but the slot is held by {holder.text}"
  | .pinGiven reg offset last =>
    s!"{reg.text} is pinned at byte {offset} but the slot was last given to {last.text}"
  | .scratchLimit reg needed limit =>
    "spilling " ++ reg.text ++ " needs " ++ Text.ByteSize.text needed.toNat ++
      " of scratch, more than the " ++ Text.ByteSize.text limit.toNat ++ " per thread limit"
  | .stillSpilling reg rounds => s!"{reg.text} still spills after {rounds} rounds of spill code"
  | .reserveFull position reserve =>
    s!"spill temporaries of instruction {position} do not fit the {reserve} byte reserve"
  | .destinationCollides reg =>
    "spilled destination " ++ reg.text ++ " collides with earlier spill code"
  | .scratchBudget scratch budget device =>
    Text.ByteSize.text scratch.toNat ++ " of spill scratch exceeds the " ++
      Text.ByteSize.text budget.toNat ++ " budget of " ++ device
  | .unplaced reg => reg.text ++ " has no register"

/-- Which rule of the instruction encoding is broken. -/
inductive EncodingFault where
  | popWithoutPush
  | immediateDestination
  | registerRange (role : Role) (number : UInt32)
  | subRegisterRange (role : Role) (sub : UInt32)
  | indirectRange (role : Role) (offset : Int32) (width : Nat)
  | twoImmediates
  | sourceAfterImmediate
  | qwordSecondImmediate
  | indirectSecondSource
  | tripleNotDirect (role : Role)
  | tripleRange (role : Role) (number : UInt32)
  | tripleUnaligned (role : Role) (sub : UInt32)
  | tripleMixed (first other : Native.DataType)
  | compareCode (code : UInt32)
  | jumpIndex (index : Int)
  | notJump (index : Int) (op : Native.Opcode)
  | flagMissing (flag sub : UInt32)
  | singleFlag (flag : UInt32)
  | messageLength (length : UInt32)
  | responseLength (length : UInt32)
  | functionControl (function : UInt32) (width : Nat)
  | payloadFile (file : Native.RegFile)
  | atomicFunction (function : UInt32)
  | scratchOffset (offset : UInt32)
  | motionMessage (message : UInt32)
  | statesLeftPushed (count : Nat)
  | undefinedLabel (label : Int)
  | duplicateLabel (label : Int)
  | notLowered (op : Opcode)
  | motionPayloadUnaligned (number sub : UInt32)
  | noScratchHeader (op : Opcode)
  | addressCount (count : Nat)
  | addressRange (entry : Nat) (address : UInt16)
  | sourceCount (op : Opcode) (wanted got : Nat)
  | compareCondition (condition : Condition)
  | notAnInput (op : Opcode)
  | atomicWidth (width : Int)
  | indirectSource
  | indirectCount (width : Int) (count : Nat)
  | motionWriteback
  | motionPayloadType (t : Element)
  /-- A fault described by its user. -/
  | described (text : String)
  deriving DecidableEq, Repr

/-- What an encoding fault says. -/
def EncodingFault.message : EncodingFault → String
  | .popWithoutPush => "state pop without a matching push"
  | .immediateDestination => "immediate destination"
  | .registerRange role number =>
    s!"{role.name} register r{number} is out of range (128 registers)"
  | .subRegisterRange role sub => s!"{role.name} sub-register byte {sub} is out of range"
  | .indirectRange role offset width =>
    s!"{role.name} indirect offset {offset} does not fit {width} bits"
  | .twoImmediates => "two immediate sources"
  | .sourceAfterImmediate => "source 1 with an immediate source 0"
  | .qwordSecondImmediate => "64-bit immediate in source 1"
  | .indirectSecondSource => "source 1 must be directly addressed"
  | .tripleNotDirect role => s!"3-source {role.name} must be a directly addressed GRF"
  | .tripleRange role number => s!"3-source {role.name} register r{number} is out of range"
  | .tripleUnaligned role sub =>
    s!"3-source {role.name} sub-register byte {sub} is not dword aligned"
  | .tripleMixed first other => s!"3-source sources mix {first.name} and {other.name}"
  | .compareCode code => s!"invalid compare condition {code}"
  | .jumpIndex index => s!"jump index {index} is outside the program"
  | .notJump index op => s!"word {index} is {op.name}, not jmpi"
  | .flagMissing flag sub => s!"flag f{flag}.{sub} does not exist"
  | .singleFlag flag => s!"gen6 has a single flag register, f{flag} requested"
  | .messageLength length => s!"message length {length} out of range"
  | .responseLength length => s!"response length {length} out of range"
  | .functionControl function width =>
    "function control 0x" ++ Text.hex function.toNat ++ s!" does not fit {width} bits"
  | .payloadFile file => "message payload must live in the register file, got " ++ file.name
  | .atomicFunction function => s!"invalid atomic function {function}"
  | .scratchOffset offset => s!"scratch offset {offset} is not a reachable register boundary"
  | .motionMessage message => s!"invalid motion estimation message {message}"
  | .statesLeftPushed count => s!"{count} encoder states left pushed"
  | .undefinedLabel label => s!"jump to undefined label L{label}"
  | .duplicateLabel label => s!"label L{label} defined twice"
  | .notLowered op => op.name ++ " reached emission without being lowered"
  | .motionPayloadUnaligned number sub =>
    s!"motion estimation payload at r{number}.{sub} is not register aligned"
  | .noScratchHeader op => op.name ++ " without a scratch header"
  | .addressCount count =>
    s!"address register setup of {count} entries, want a multiple of 4 up to 16"
  | .addressRange entry address =>
    s!"a0.{entry} byte address {address} is outside the register file"
  | .sourceCount op wanted got => s!"{op.name} takes {wanted} sources, got {got}"
  | .compareCondition condition => s!"compare condition {condition.code} is invalid"
  | .notAnInput op =>
    op.name ++ " is produced by selection and allocation, not accepted as input"
  | .atomicWidth width => s!"atomics run at SIMD8 or SIMD16, not SIMD{width}"
  | .indirectSource => "indirect move needs a vector register source"
  | .indirectCount width count => s!"indirect move at SIMD{width} has {count} address offsets"
  | .motionWriteback => "motion estimation needs a writeback register"
  | .motionPayloadType t => "motion estimation payload of type " ++ t.name
  | .described text => text

/-- Which combination has no code path. -/
inductive Gap where
  | execWidth (width : Int) (generation : Generation)
  | encoder (generation : Generation)
  | context (generation : Generation)
  | device (generation : Generation)
  | untypedElements (count : Int)
  | scratchBlock (registers : Int)
  | selection (op : Opcode)
  | mulHiType (t : Element)
  | atomic64 (op : AtomicOp)
  | atomicOperand (t : Element)
  | loadTypes (value address : Element)
  | storeTypes (value address : Element)
  | indirectWide (width : Int)
  | motionWidth (width : Int)
  | immediate (t : Element)
  /-- A gap described by its user. -/
  | described (text : String)
  deriving DecidableEq, Repr

/-- What a gap says. -/
def Gap.message : Gap → String
  | .execWidth width generation =>
    s!"SIMD{width} execution is not implemented on {generation.name}"
  | .encoder generation => "no encoder for generation " ++ generation.name
  | .context generation => "no generation context for " ++ generation.name
  | .device generation => "no device descriptor for generation " ++ generation.name
  | .untypedElements count => s!"untyped access of {count} elements"
  | .scratchBlock registers => s!"scratch block of {registers} registers"
  | .selection op => "selection of " ++ op.name
  | .mulHiType t => "mul_hi with a " ++ t.name ++ " destination"
  | .atomic64 op => "64-bit atomic " ++ op.name
  | .atomicOperand t => "atomic operand of type " ++ t.name
  | .loadTypes value address => s!"untyped load of {value.name} from a {address.name} address"
  | .storeTypes value address => s!"untyped store of {value.name} to a {address.name} address"
  | .indirectWide width => s!"SIMD{width} indirect move of 64-bit data"
  | .motionWidth width => s!"motion estimation at SIMD{width}"
  | .immediate t => t.name ++ " immediates"
  | .described text => text

/-- What is wrong with the configuration. -/
inductive ConfigFault where
  | reserved (file low reserve : UInt32)
  | simdWidth (width : Int)
  | stackLimit (needed limit : UInt32)
  | pointerSize (size : Int)
  /-- A kernel compiled for fewer lanes than it asks for. -/
  | narrowed (compiled wanted : Int)
  /-- A fault described by its user. -/
  | described (text : String)
  deriving DecidableEq, Repr

/-- What a configuration fault says. -/
def ConfigFault.message : ConfigFault → String
  | .reserved file low reserve =>
    s!"register file of {file} bytes cannot hold {low} reserved and {reserve} spill bytes"
  | .simdWidth width => s!"SIMD width {width} is not supported"
  | .stackLimit needed limit =>
    "kernel needs " ++ Text.ByteSize.text needed.toNat ++ " of stack per lane, the limit is " ++
      Text.ByteSize.text limit.toNat
  | .pointerSize size => s!"pointer size {size} is not supported"
  | .narrowed compiled wanted => s!"compiled at SIMD{compiled} instead of SIMD{wanted}"
  | .described text => text

/-- The cause of a diagnostic. -/
inductive Cause where
  /-- A generation, given by name, lacks something. -/
  | unsupported (lack : Lack) (generation : String)
  | placement (fault : PlacementFault)
  /-- A placement fault described by its user. -/
  | allocation (text : String)
  | encoding (fault : EncodingFault)
  | unimplemented (gap : Gap)
  | config (fault : ConfigFault)
  /-- Anything else, with its category. -/
  | other (category : Category) (text : String)
  deriving DecidableEq, Repr

namespace Cause

/-- The category of a cause. -/
def category : Cause → Category
  | .unsupported _ _ => .unsupported
  | .placement _ | .allocation _ => .allocation
  | .encoding _ => .encoding
  | .unimplemented _ => .unimplemented
  | .config _ => .config
  | .other category _ => category

/-- What a cause says. -/
def message : Cause → String
  | .unsupported lack generation => lack.name ++ " is not supported on " ++ generation
  | .placement fault => fault.message
  | .allocation text => text
  | .encoding fault => fault.message
  | .unimplemented gap => gap.message
  | .config fault => fault.message
  | .other _ text => text

end Cause

end GpuCodegen
