import GpuCodegen.Kernel.Element
import GpuCodegen.Text.Digits

/-!
Kernel operands: a virtual register, an immediate, or nothing. A vector register holds one element
per lane and a scalar one a single element for all lanes. A register with a span of more than one is
a run of consecutive vectors, of which an operand may select one part.
-/

namespace GpuCodegen

/-- Reduces an integer to the signed 64-bit range. -/
def wrap64 (n : Int) : Int := n.bmod 0x10000000000000000

/-- A reference to a virtual register. -/
structure RegisterOperand where
  reg : VReg
  type : Element
  scalar : Bool := false
  span : Int := 0
  part : Int := 0
  negate : Bool := false
  absolute : Bool := false
  deriving DecidableEq, Repr

namespace RegisterOperand

/-- The number of vectors the register covers, at least one. -/
def spans (o : RegisterOperand) : Int := if o.span < 1 then 1 else o.span

/-- The number of lanes that hold an element at a given execution width. -/
def lanes (o : RegisterOperand) (width : Int) : Int := if o.scalar then 1 else width

/-- The register storage the operand needs at a given execution width. -/
def bytes (o : RegisterOperand) (width : Int) : Int :=
  wrap64 (o.type.size * o.lanes width * o.spans)

/-- The storage size as a 32-bit number. -/
def storage (o : RegisterOperand) (width : Int) : UInt32 := UInt32.ofInt (o.bytes width)

/-- The text of a register operand. -/
def text (o : RegisterOperand) : String :=
  (if o.negate then "-" else "") ++ (if o.absolute then "(abs)" else "") ++ o.reg.text ++
    (if 1 < o.span then s!"[{o.part}/{o.span}]" else "") ++ (if o.scalar then "<0>" else "") ++
    ":" ++ o.type.name

end RegisterOperand

/-- An operand of a kernel instruction. -/
inductive Operand where
  /-- No operand; the type is the one it would have. -/
  | absent (type : Element)
  | register (o : RegisterOperand)
  | immediate (type : Element) (bits : UInt64) (negate absolute : Bool)
  deriving DecidableEq, Repr

namespace Operand

instance : Inhabited Operand := ⟨.absent .ud⟩

/-- A vector register operand. -/
def vector (r : VReg) (t : Element) : Operand := .register { reg := r, type := t }

/-- A scalar register operand. -/
def scalar (r : VReg) (t : Element) : Operand := .register { reg := r, type := t, scalar := true }

/-- All vectors of a register with a span. -/
def payload (r : VReg) (t : Element) (span : Int) : Operand :=
  .register { reg := r, type := t, span := span }

/-- One vector of a register with a span. -/
def payloadPart (r : VReg) (t : Element) (span part : Int) : Operand :=
  .register { reg := r, type := t, span := span, part := part }

/-- The element type. -/
def type : Operand → Element
  | .absent t => t
  | .register o => o.type
  | .immediate t _ _ _ => t

/-- Whether there is no operand. -/
def isAbsent : Operand → Bool
  | .absent _ => true
  | _ => false

/-- Whether the operand is an immediate. -/
def isImmediate : Operand → Bool
  | .immediate _ _ _ _ => true
  | _ => false

/-- The register reference of an operand that names a register. -/
def register? : Operand → Option RegisterOperand
  | .register o => if o.reg = VReg.none then none else some o
  | _ => none

/-- Whether the operand names a register. -/
def isRegister (o : Operand) : Bool := o.register?.isSome

/-- Whether the operand names the register `r`. -/
def names (o : Operand) (r : VReg) : Bool :=
  match o.register? with
  | some x => x.reg == r
  | none => false

/-- The number of vectors the operand covers, at least one. -/
def spans : Operand → Int
  | .register o => o.spans
  | _ => 1

/-- The operand with its register renamed. -/
def rename (o : Operand) (f : VReg → VReg) : Operand :=
  match o with
  | .register x => if x.reg = VReg.none then o else .register { x with reg := f x.reg }
  | _ => o

/-- The text of an operand. -/
def text : Operand → String
  | .absent _ => "_"
  | .register o => o.text
  | .immediate t bits _ _ => "0x" ++ Text.hex bits.toNat ++ ":" ++ t.name

end Operand

end GpuCodegen
