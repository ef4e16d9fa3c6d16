import GpuCodegen.Kernel.Opcode
import GpuCodegen.Kernel.Operand

/-!
Kernel instructions. An instruction's position in its kernel is the program point that liveness is
measured in.
-/

namespace GpuCodegen

/-- One instruction of a kernel. -/
structure Instruction where
  op : Opcode
  dst : Operand := .absent .ud
  src : List Operand := []
  /-- The number of lanes; zero or less stands for the kernel's width. -/
  execWidth : Int := 0
  /-- The basic block. -/
  block : Int := 0
  predicated : Bool := false
  fences : Fences := ⟨0⟩
  atomic : AtomicOp := .unlisted 0
  condition : Condition := .unlisted 0
  /-- The binding table index of a surface. -/
  surface : UInt8 := 0
  /-- The label an instruction defines or jumps to. -/
  label : Int := 0
  /-- Per-lane byte offsets of an indirect move. -/
  addresses : List UInt16 := []
  /-- The scratch byte offset of a reload or spill. -/
  offset : UInt32 := 0
  motion : Motion := .unlisted 0
  deriving DecidableEq, Repr, Inhabited

namespace Instruction

/-- The register operands: the destination first, then the sources. -/
def registers (i : Instruction) : List RegisterOperand :=
  i.dst.register?.toList ++ i.src.filterMap Operand.register?

/-- Whether the instruction reads a register. -/
def reads (i : Instruction) (r : VReg) : Bool :=
  i.src.any fun s => s.names r

/-- Whether the instruction writes a register. -/
def writes (i : Instruction) (r : VReg) : Bool := i.dst.names r

/-- Whether the destination is also a source. -/
def aliased (i : Instruction) : Bool :=
  match i.dst.register? with
  | some d => i.reads d.reg
  | none => false

/-- The number of lanes inside a kernel of a given width. -/
def width (i : Instruction) (kernelWidth : Int) : Int :=
  if 0 < i.execWidth then i.execWidth else kernelWidth

/-- The operation with its width and the attributes it prints. -/
def head (i : Instruction) : String :=
  (if i.predicated then "(+f0) " else "") ++ i.op.name ++
    (if 0 < i.execWidth then s!"({i.execWidth})" else "") ++
    match i.op with
    | .label | .jump => s!" L{i.label}"
    | .atomic | .atomicMessage => s!".{i.atomic.name} bti{i.surface}"
    | .compare => "." ++ i.condition.name
    | .motion | .motionMessage => s!".{i.motion.name} bti{i.surface}"
    | .reload | .spill => s!" @{i.offset}"
    | _ => ""

/-- The destination and sources as text. -/
def operandText (i : Instruction) : String :=
  (if i.dst.isAbsent then "" else " " ++ i.dst.text) ++
    String.join (i.src.map fun s => ", " ++ s.text)

/-- The text of an instruction. Labels and jumps show no operands. -/
def text (i : Instruction) : String :=
  if i.op = .label ∨ i.op = .jump then i.head else i.head ++ i.operandText

end Instruction

end GpuCodegen
