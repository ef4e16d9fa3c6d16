import GpuCodegen.Diagnostic.Detail
import GpuCodegen.Kernel.Basic

/-!
Live intervals. An interval spans the program points at which a register is accessed. A hole
interval marks a stretch inside its owner's range where the owner holds a dead value and its place
can be borrowed.
-/

namespace GpuCodegen

/-- The block number of an interval that spans more than one basic block. -/
def noBlock : Int := -1

/-- Rounds `v` up to a multiple of `align`. -/
def alignUp (v align : UInt32) : UInt32 := (v + align - 1) / align * align

/-- The bytes the register file hands out for a register: a power of two below one general register,
whole general registers above. -/
def slotSize (size : UInt32) : UInt32 :=
  if size = 0 then 32
  else if 32 ≤ size then alignUp size 32
  else if size ≤ 1 then 1
  else if size ≤ 2 then 2
  else if size ≤ 4 then 4
  else if size ≤ 8 then 8
  else if size ≤ 16 then 16
  else 32

/-- The live range of one virtual register with its placement hints. -/
structure Interval where
  reg : VReg
  /-- The first program point. A fresh interval starts inverted. -/
  min : Int := 2147483647
  /-- The last program point. -/
  max : Int := -2147483648
  accesses : Nat := 0
  block : Int := noBlock
  /-- A register whose bank to keep out of. -/
  conflict : VReg := .none
  /-- Whether a three-source instruction accesses the register. -/
  triple : Bool := false
  /-- Whether the register was placed inside another one's hole. -/
  reused : Bool := false
  hole : Bool := false
  /-- Size in bytes. -/
  size : UInt32 := 0
  deriving DecidableEq, Repr

namespace Interval

instance : Inhabited Interval := ⟨{ reg := .none }⟩

/-- Widens the range to a point and counts the access. -/
def observe (i : Interval) (position : Int) : Interval :=
  { i with
    min := if position < i.min then position else i.min
    max := if i.max < position then position else i.max
    accesses := i.accesses + 1 }

/-- Whether the interval covers any point. -/
def valid (i : Interval) : Bool := i.min ≤ i.max

/-- Whether two closed ranges share a point. -/
def overlaps (i j : Interval) : Bool := i.min ≤ j.max && j.min ≤ i.max

/-- Whether the first range lies strictly between the ends of the second. -/
def inside (i j : Interval) : Bool := j.min < i.min && i.max < j.max

/-- The number of points covered, counted in a signed 64-bit word. -/
def length (i : Interval) : Int := if i.valid then wrap64 (i.max - i.min + 1) else 0

/-- The bytes the register takes in the register file. -/
def slot (i : Interval) : UInt32 := slotSize i.size

/-- The byte alignment of the register's place. -/
def alignment (i : Interval) : UInt32 :=
  let align := if i.slot < 32 then i.slot else 32
  if i.triple ∧ align < 16 then 16 else align

/-- The text of an interval. -/
def text (i : Interval) : String :=
  (if i.hole then "hole " else "live ") ++ s!"{i.reg.text} [{i.min},{i.max}] {i.size}B"

/-- An interval as a trace shows it: its text, or its parts. -/
def value (i : Interval) : Text.Value :=
  .titled i.text
    (.reference
      (.record "regalloc.Interval"
        [("Reg", i.reg.value), ("MinPoint", .int i.min), ("MaxPoint", .int i.max),
          ("AccessCount", .int i.accesses), ("BlockID", .int i.block),
          ("ConflictReg", i.conflict.value), ("TripleOpAlign", .truth i.triple),
          ("ReusedHole", .truth i.reused), ("IsHole", .truth i.hole), ("Size", .word i.size)]))

end Interval

end GpuCodegen
