import GpuCodegen.Diagnostic.Basic
import GpuCodegen.Native.Decoded
import GpuCodegen.Native.Split
import GpuCodegen.Target.Feature

/-!
What instruction headers share across a run of instructions, and what differs between generations
beyond the bit layout: flag registers, the types of the three-source unit and the shared functions
of memory messages.
-/

namespace GpuCodegen

open Native

/-- The part of an instruction header that emission keeps between instructions. -/
structure State where
  /-- The number of lanes. -/
  execWidth : Int
  quarter : UInt32 := 0
  noMask : Bool := false
  predicate : UInt32 := 0
  inversePredicate : Bool := false
  flag : UInt32 := 0
  subFlag : UInt32 := 0
  saturate : Bool := false
  accWrite : Bool := false
  nibControl : Bool := false
  deriving DecidableEq, Repr, Inhabited

namespace State

/-- The state for unpredicated instructions on all lanes, `width` of them. -/
def unmasked (s : State) (width : Int) : State :=
  { s with execWidth := width, noMask := true, predicate := 0 }

/-- Whether instructions run sixteen lanes. -/
def isSimd16 (s : State) : Bool := s.execWidth == 16

/-- The registers that one dword per lane takes. -/
def laneRegisters (s : State) : UInt32 := if s.isSimd16 then 2 else 1

end State

namespace Generation

/-- Whether words can be encoded for the generation. -/
def hasEncoder (g : Generation) : Bool := 1 ≤ g.number

/-- The flag register a state selects, if the generation has it. Sandy Bridge has a single one. -/
def checkedFlag (g : Generation) (s : State) : Except Diagnostic (UInt32 × UInt32) :=
  if g = .gen6 then
    if s.flag ≠ 0 then .error (.encoding (.singleFlag s.flag))
    else if 1 < s.subFlag then .error (.encoding (.flagMissing 0 s.subFlag))
    else .ok (0, s.subFlag)
  else if 1 < s.flag ∨ 1 < s.subFlag then .error (.encoding (.flagMissing s.flag s.subFlag))
  else .ok (s.flag, s.subFlag)

/-- Whether the three-source unit takes a type: floats on Sandy Bridge, dwords besides from Ivy
Bridge on, doubles besides from Broadwell on. -/
def tripleUnitTakes (g : Generation) (t : DataType) : Bool :=
  if g = .gen6 then t == .f
  else if g = .gen7 ∨ g = .gen75 then t == .f || t == .d || t == .ud
  else t == .f || t == .d || t == .ud || t == .df

/-- The shared function of fences and scratch messages. -/
def memoryFunction (g : Generation) : SharedFunction :=
  if g = .gen6 then .renderCache else .dataCache0

/-- The shared function of untyped surface reads, writes and atomics. -/
def untypedFunction (g : Generation) : SharedFunction :=
  if g = .gen6 then .renderCache
  else if g = .gen7 then .dataCache0
  else .dataCache1

end Generation

end GpuCodegen
