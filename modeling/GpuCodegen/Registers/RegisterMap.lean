import GpuCodegen.Kernel.Element
import GpuCodegen.OrdMap

/-!
Maps from virtual registers to byte offsets, with an optional index from offsets back to the
register that was last put there. The map addresses a range of register numbers that grows by
doubling.
-/

namespace GpuCodegen

/-- The offset that stands for none. -/
def unmapped : UInt32 := 0xffffffff

/-- A map from virtual registers to offsets. -/
structure RegisterMap where
  /-- Offsets by register number. -/
  offsets : OrdMap UInt32 := .empty
  /-- How many register numbers are addressed without growth. -/
  capacity : Nat := 0
  /-- How many registers were mapped. -/
  count : Nat := 0
  /-- Registers by offset, once the index is switched on. -/
  reverse : Option (OrdMap VReg) := none
  deriving DecidableEq, Repr

namespace RegisterMap

/-- A map with room for a number of registers. -/
def ofCapacity (n : Int) : RegisterMap where
  capacity := n.toNat

/-- The offset of a register, or `unmapped`. -/
def get (m : RegisterMap) (r : VReg) : UInt32 := (m.offsets.find? r.number).getD unmapped

/-- Whether a register has an offset. -/
def contains (m : RegisterMap) (r : VReg) : Bool := m.get r != unmapped

/-- The offset of a register that has one. -/
def lookup? (m : RegisterMap) (r : VReg) : Option UInt32 :=
  if m.contains r then some (m.get r) else none

/-- The mapped registers with their offsets, by register number. -/
def pairs (m : RegisterMap) : List (VReg × UInt32) :=
  (m.offsets.entries.filter fun e => e.2 != unmapped).map fun e => (⟨e.1⟩, e.2)

/-- Switches the index on; registers already mapped are indexed too. -/
def enableReverse (m : RegisterMap) : RegisterMap :=
  match m.reverse with
  | some _ => m
  | none =>
    { m with
      reverse := some (m.pairs.foldl (fun index p => index.insert p.2 p.1) .empty) }

/-- Removes an offset from the index while it still names the register. -/
def dropReverse (index : OrdMap VReg) (offset : UInt32) (r : VReg) : OrdMap VReg :=
  if index.find? offset = some r then index.erase offset else index

/-- The capacity after a register number is addressed. -/
def grown (capacity index : Nat) : Nat :=
  if index < capacity then capacity else max (index + 1) (2 * capacity)

/-- Maps a register to an offset, in place of an earlier one. -/
def insert (m : RegisterMap) (r : VReg) (offset : UInt32) : RegisterMap where
  offsets := m.offsets.insert r.number offset
  capacity := grown m.capacity r.number.toNat
  count := if m.contains r then m.count else m.count + 1
  reverse := m.reverse.map fun index =>
    (if m.contains r then dropReverse index (m.get r) r else index).insert offset r

/-- Removes a register; one that is not mapped is ignored. -/
def erase (m : RegisterMap) (r : VReg) : RegisterMap :=
  if m.contains r then
    { m with
      offsets := m.offsets.erase r.number
      count := m.count - 1
      reverse := m.reverse.map fun index => dropReverse index (m.get r) r }
  else
    m

/-- The register last mapped to an offset. -/
def registerAt? (m : RegisterMap) (offset : UInt32) : Option VReg :=
  m.reverse.bind fun index => index.find? offset

/-- The index in ascending order of offsets; empty while it is off. -/
def reverseEntries (m : RegisterMap) : List (UInt32 × VReg) :=
  match m.reverse with
  | some index => index.entries
  | none => []

/-- The map without registers; the capacity stays. -/
def clear (m : RegisterMap) : RegisterMap :=
  { m with offsets := .empty, count := 0, reverse := m.reverse.map fun _ => .empty }

/-- An estimate of the bytes the map holds. -/
def memoryUsage (m : RegisterMap) : Nat :=
  4 * m.capacity + 24 * m.reverseEntries.length

end RegisterMap

end GpuCodegen
