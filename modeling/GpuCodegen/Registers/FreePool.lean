import GpuCodegen.OrdMap
import GpuCodegen.Registers.Interval

/-!
The free bytes of a window of the register file, as disjoint blocks ordered by offset. Neighbouring
blocks are merged when bytes are given back. The register file has two banks that alternate from one
general register to the next; a request may ask to keep out of one of them.
-/

namespace GpuCodegen

/-- The bank of a byte offset: 0 or 1. -/
def bankOf (offset : UInt32) : Nat := (offset / 32).toNat % 2

/-- The free bytes of a window. -/
structure FreePool where
  base : UInt32
  limit : UInt32
  /-- Sizes of free blocks by offset. -/
  free : OrdMap UInt32
  deriving DecidableEq, Repr

namespace FreePool

/-- The pool of a window that is entirely free. -/
def new (base limit : UInt32) : FreePool where
  base := base
  limit := limit
  free := if base < limit then OrdMap.empty.insert base (limit - base) else .empty

/-- Whether a range lies inside the window. -/
def contains (p : FreePool) (offset size : UInt32) : Bool :=
  p.base ≤ offset && offset + size ≤ p.limit

/-- The number of free bytes. -/
def available (p : FreePool) : UInt32 := p.free.entries.foldl (fun n b => n + b.2) 0

/-- Whether a start keeps out of a bank. -/
def avoids (avoid : Option Nat) (start : UInt32) : Bool := avoid != some (bankOf start)

/-- Searches the block that ends at `stop` from `start` on; each step goes to the first aligned
offset of a later general register. `steps` bounds the search. -/
def findFrom (stop size align : UInt32) (avoid : Option Nat) : Nat → UInt32 → Option UInt32
  | 0, _ => none
  | steps + 1, start =>
    if start + size ≤ stop then
      if avoids avoid start then some start
      else findFrom stop size align avoid steps (alignUp ((start / 32 + 1) * 32) align)
    else
      none

/-- Every general register of the address space is visited at most once. -/
def searchSteps : Nat := 134217730

/-- The lowest aligned start of a free range, outside a bank if one is to be avoided. -/
def find (p : FreePool) (size align : UInt32) (avoid : Option Nat) : Option UInt32 :=
  p.free.entries.findSome? fun b =>
    findFrom (b.1 + b.2) size align avoid searchSteps (alignUp b.1 align)

/-- Takes a range out of the free block that holds its start. Without such a block an empty one at
offset zero stands in for it. -/
def take (p : FreePool) (offset size : UInt32) : FreePool :=
  let (start, length) := (p.free.floor? offset).getD (0, 0)
  let free := p.free.erase start
  let free := if start < offset then free.insert start (offset - start) else free
  let stop := offset + size
  let free := if stop < start + length then free.insert stop (start + length - stop) else free
  { p with free := free }

/-- Takes the lowest suitable range. When no range outside the avoided bank exists, the lowest range
is taken anyway. -/
def allocate (p : FreePool) (size align : UInt32) (avoid : Option Nat) :
    Option (UInt32 × FreePool) :=
  ((if avoid.isSome then p.find size align avoid else none).orElse
    fun _ => p.find size align none).map fun offset => (offset, p.take offset size)

/-- Takes exactly a given range, if all of it is free. -/
def claim (p : FreePool) (offset size : UInt32) : Option FreePool :=
  match p.free.floor? offset with
  | none => none
  | some (start, length) => if start + length < offset + size then none else some (p.take offset size)

/-- Joins a range with the free block that ends where it starts. -/
def joinBefore (free : OrdMap UInt32) (offset size : UInt32) : OrdMap UInt32 × UInt32 × UInt32 :=
  match free.floor? offset with
  | some (start, length) =>
    if start + length = offset then (free.erase start, start, length + size)
    else (free, offset, size)
  | none => (free, offset, size)

/-- Joins a range with the free block that starts where it ends. -/
def joinAfter (free : OrdMap UInt32) (offset size : UInt32) : OrdMap UInt32 × UInt32 :=
  match free.ceiling? (offset + size) with
  | some (start, length) =>
    if start = offset + size then (free.erase start, size + length) else (free, size)
  | none => (free, size)

/-- Gives a range back and merges it with its free neighbours. -/
def release (p : FreePool) (offset size : UInt32) : FreePool :=
  let (free, offset, size) := joinBefore p.free offset size
  let (free, size) := joinAfter free offset size
  { p with free := free.insert offset size }

end FreePool

end GpuCodegen
