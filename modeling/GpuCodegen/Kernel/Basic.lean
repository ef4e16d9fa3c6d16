import GpuCodegen.Kernel.Instruction
import GpuCodegen.OrdMap

/-!
Kernels: an instruction stream, the registers whose place the thread payload fixes, and the next
unused register number. `Kernel.emit` keeps that number above every register the stream names.
-/

namespace GpuCodegen

/-- One compilation unit. -/
structure Kernel where
  name : String
  /-- The number of lanes. -/
  simdWidth : Int
  /-- Stack bytes per lane; zero without a stack. -/
  stackSize : UInt32 := 0
  stackPointer : VReg := .none
  /-- Pointer size in bytes. -/
  pointerSize : Int := 4
  code : List Instruction := []
  /-- Register file byte offsets of pinned registers, by register number. -/
  pinned : OrdMap UInt32 := .empty
  /-- The next register number to hand out. -/
  next : UInt32 := 0
  deriving DecidableEq, Repr

namespace Kernel

/-- The pinned offset of a register. -/
def pin? (k : Kernel) (r : VReg) : Option UInt32 := k.pinned.find? r.number

/-- The register the kernel hands out next. -/
def freshRegister (k : Kernel) : VReg := ⟨k.next⟩

/-- The kernel after handing out a register. -/
def allocRegister (k : Kernel) : Kernel := { k with next := k.next + 1 }

/-- Fixes a register at a register file byte offset. -/
def pin (k : Kernel) (r : VReg) (offset : UInt32) : Kernel :=
  { k with pinned := k.pinned.insert r.number offset }

/-- Raises the next register number above a register. -/
def noteRegister (next : UInt32) (r : VReg) : UInt32 :=
  if next ≤ r.number then r.number + 1 else next

/-- Appends an instruction. -/
def emit (k : Kernel) (i : Instruction) : Kernel :=
  { k with
    code := k.code ++ [i]
    next := i.registers.foldl (fun next o => noteRegister next o.reg) k.next }

/-- Appends instructions in order. -/
def emitAll (k : Kernel) (is : List Instruction) : Kernel := is.foldl emit k

/-- The kernel with the same registers and no instructions. -/
def cloneEmpty (k : Kernel) : Kernel := { k with code := [] }

/-- The highest block number in use, at least zero. -/
def maxBlock (k : Kernel) : Int := k.code.foldl (fun m i => max m i.block) 0

/-- The number of lanes of one of the kernel's instructions. -/
def widthOf (k : Kernel) (i : Instruction) : Int := i.width k.simdWidth

/-- The listing of a kernel. -/
def text (k : Kernel) : String :=
  s!"kernel {k.name} simd{k.simdWidth}" ++
    (if 0 < k.stackSize then s!" stack {k.stackSize}" else "") ++ "\n" ++
    String.join (k.code.zipIdx.map fun (i, pos) =>
      Text.listingIndex pos ++ ": " ++ i.text ++ "\n")

end Kernel

end GpuCodegen
