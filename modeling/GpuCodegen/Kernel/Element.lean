import GpuCodegen.Native.DataType

/-!
Virtual registers and the element types of kernel operands.
-/

namespace GpuCodegen

/-- A virtual register. Registers are numbered densely from zero. -/
structure VReg where
  number : UInt32
  deriving DecidableEq, Repr, Inhabited

namespace VReg

/-- The name that stands for no register. -/
def none : VReg := ⟨0xffffffff⟩

/-- The text of a virtual register. -/
def text (r : VReg) : String :=
  if r = none then "%none" else s!"%{r.number}"

end VReg

/-- The element type of a kernel operand. -/
inductive Element where
  | ud | d | uw | w | ub | b | f | df | ul | l | hf
  /-- A type outside the list, handled as a dword. -/
  | unknown
  deriving DecidableEq, Repr, Inhabited

namespace Element

/-- Every listed element type, in numbering order. -/
def all : List Element := [.ud, .d, .uw, .w, .ub, .b, .f, .df, .ul, .l, .hf]

/-- The element type with a given number. -/
def ofCode (code : Nat) : Element := (all[code]?).getD .unknown

/-- The name of an element type. -/
def name : Element → String
  | .ud => "ud"
  | .d => "d"
  | .uw => "uw"
  | .w => "w"
  | .ub => "ub"
  | .b => "b"
  | .f => "f"
  | .df => "df"
  | .ul => "ul"
  | .l => "l"
  | .hf => "hf"
  | .unknown => "?"

/-- The element type with a given name. -/
def ofName? (text : String) : Option Element :=
  all.find? fun t => t.name == text

/-- The element size in bytes. -/
def size : Element → Nat
  | .ub | .b => 1
  | .uw | .w | .hf => 2
  | .df | .ul | .l => 8
  | .ud | .d | .f | .unknown => 4

/-- Whether an element takes eight bytes. -/
def is64 (t : Element) : Bool := t.size == 8

/-- Whether the type is a 64-bit integer. -/
def isInt64 (t : Element) : Bool := t == .ul || t == .l

/-- Whether the type is a floating point type. -/
def isFloat (t : Element) : Bool := t == .f || t == .df || t == .hf

/-- The hardware type of an element. -/
def dataType : Element → Native.DataType
  | .ud | .unknown => .ud
  | .d => .d
  | .uw => .uw
  | .w => .w
  | .ub => .ub
  | .b => .b
  | .f => .f
  | .df => .df
  | .ul => .ul
  | .l => .l
  | .hf => .hf

end Element

end GpuCodegen
