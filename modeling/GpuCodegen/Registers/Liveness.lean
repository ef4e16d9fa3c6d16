import GpuCodegen.Registers.Store

/-!
Live intervals of a kernel. One walk over the instructions records, for every register, the span of
points it is accessed at, its size, its block and its three-source constraints. A register that is
fully redefined in the block of its previous access leaves a hole between the two points. Registers
live at the header of a loop are kept alive up to the jump that closes it.
-/

namespace GpuCodegen

/-- A backward jump at `stop` to the label at `header`. -/
structure Loop where
  header : Nat
  stop : Nat
  deriving DecidableEq, Repr

namespace Kernel

/-- Whether an instruction overwrites every byte of its destination. -/
def fullyDefines (k : Kernel) (i : Instruction) (dst : RegisterOperand) : Bool :=
  !i.predicated && !i.reads dst.reg && !(1 < dst.spans) &&
    (dst.scalar || k.simdWidth ≤ k.widthOf i)

/-- The position of a label; of several the last. -/
def labelPosition? (k : Kernel) (label : Int) : Option Nat :=
  ((k.code.zipIdx.filter fun (i, _) => i.op == .label && i.label == label).getLast?).map (·.2)

/-- Every jump whose label comes before it, in order. -/
def loops (k : Kernel) : List Loop :=
  k.code.zipIdx.filterMap fun (i, position) =>
    if i.op = .jump then
      match k.labelPosition? i.label with
      | some header => if header < position then some ⟨header, position⟩ else none
      | none => none
    else
      none

/-- Whether a run of instructions reads a register before fully defining it. -/
def readsFirst (k : Kernel) (r : VReg) : List Instruction → Bool
  | [] => false
  | i :: rest =>
    if i.reads r then true
    else
      match i.dst.register? with
      | some dst => if dst.reg = r then !k.fullyDefines i dst else readsFirst k r rest
      | none => readsFirst k r rest

/-- The instructions of a loop. -/
def loopBody (k : Kernel) (l : Loop) : List Instruction :=
  (k.code.drop l.header).take (l.stop + 1 - l.header)

/-- Whether a register's value comes around a loop from the iteration before. -/
def carries (k : Kernel) (l : Loop) (r : VReg) : Bool := k.readsFirst r (k.loopBody l)

/-- One past the highest register number the kernel names. -/
def registerBound (k : Kernel) : Nat :=
  let named := k.code.flatMap fun i => i.registers.map fun o => o.reg
  let named := if k.stackPointer = .none then named else named ++ [k.stackPointer]
  named.foldl (fun n r => max n (r.number.toNat + 1)) k.next.toNat

end Kernel

/-- What the walk has seen of a register. -/
structure Usage where
  /-- The register's index in the store. -/
  index : Nat
  lastAccess : Nat
  lastBlock : Int
  /-- Whether accesses lie in more than one block. -/
  multiBlock : Bool
  deriving DecidableEq, Repr

/-- The state of the walk over the instructions. -/
structure Walk where
  store : IntervalStore := .empty
  usage : OrdMap Usage := .empty
  /-- Holes found so far, in order. -/
  holes : List Interval := []
  maxOperands : Nat := 0
  deriving Repr

namespace Walk

/-- Records one access to a register. -/
def access (w : Walk) (position : Nat) (i : Instruction) (width : Int) (o : RegisterOperand) :
    Walk :=
  let triple := i.op.isThreeSource
  let seen (iv : Interval) : Interval :=
    let iv := iv.observe position
    { iv with
      size := if iv.size < o.storage width then o.storage width else iv.size
      triple := iv.triple || triple }
  match w.usage.find? o.reg.number with
  | none =>
    { w with
      store := w.store.add (seen { reg := o.reg })
      usage := w.usage.insert o.reg.number ⟨w.store.size, position, i.block, false⟩ }
  | some u =>
    { w with
      store := w.store.modify u.index seen
      usage := w.usage.insert o.reg.number
        ⟨u.index, position, i.block, u.multiBlock || u.lastBlock != i.block⟩ }

/-- The hole that a redefinition of a register leaves behind. -/
def holeBefore? (w : Walk) (k : Kernel) (position : Nat) (i : Instruction) : Option Interval := do
  let dst ← i.dst.register?
  let u ← w.usage.find? dst.reg.number
  if (k.pin? dst.reg).isNone && dst.reg != k.stackPointer && k.fullyDefines i dst &&
      u.lastBlock == i.block && u.lastAccess + 1 < position then
    some { reg := dst.reg, min := u.lastAccess, max := position, block := i.block, hole := true }
  else
    none

/-- Records that a register should keep out of another one's bank, unless it already keeps out of
one. -/
def avoid (w : Walk) (r other : VReg) : Walk :=
  match w.usage.find? r.number with
  | none => w
  | some u =>
    { w with
      store := w.store.modify u.index fun iv =>
        if iv.conflict = .none then { iv with conflict := other } else iv }

/-- Records that the last two sources of a three-source instruction should use different banks. -/
def separate (w : Walk) (i : Instruction) : Walk :=
  match i.op.isThreeSource, i.src.map Operand.register? with
  | true, [_, some a, some b] =>
    if a.reg = b.reg then w else (w.avoid a.reg b.reg).avoid b.reg a.reg
  | _, _ => w

/-- Walks over one instruction. -/
def step (k : Kernel) (w : Walk) (entry : Instruction × Nat) : Walk :=
  let (i, position) := entry
  let operands := i.registers
  let w := { w with holes := w.holes ++ (w.holeBefore? k position i).toList }
  let w := operands.foldl (fun w o => w.access position i (k.widthOf i) o) w
  let w := w.separate i
  { w with maxOperands := max w.maxOperands operands.length }

end Walk

/-- The walk over a whole kernel. -/
def Kernel.walk (k : Kernel) : Walk := k.code.zipIdx.foldl (Walk.step k) {}

/-- The intervals of a kernel. -/
structure Liveness where
  store : IntervalStore
  /-- The store index of every register in use, by register number. -/
  index : OrdMap Nat
  /-- One past the highest register number. -/
  bound : Nat
  /-- The register operands of the busiest instruction. -/
  maxOperands : Nat
  /-- The largest place any register takes. -/
  maxRegSize : UInt32
  holes : Nat
  deriving Repr

namespace Liveness

/-- The store index of a register. -/
def indexOf? (lv : Liveness) (r : VReg) : Option Nat := lv.index.find? r.number

/-- The interval of a register. -/
def intervalOf? (lv : Liveness) (r : VReg) : Option Interval :=
  (lv.indexOf? r).map lv.store.get

/-- Widens an interval over a loop if it is live at the loop's header. -/
def widenOver (k : Kernel) (iv : Interval) (l : Loop) : Interval :=
  let across := iv.min < l.header && (l.header : Int) ≤ iv.max
  if (across || k.carries l iv.reg) && (iv.max < l.stop || (l.header : Int) < iv.min) then
    { iv with
      max := if iv.max < l.stop then l.stop else iv.max
      min := if (l.header : Int) < iv.min then l.header else iv.min
      block := noBlock }
  else
    iv

/-- Widens an interval over all loops. Widening over one loop can make the interval live at another
header, so there are as many passes as loops: every pass but the last covers a loop more. -/
def widen (k : Kernel) (loops : List Loop) (iv : Interval) : Interval :=
  loops.foldl (fun iv _ => loops.foldl (widenOver k) iv) iv

/-- Whether a hole covers a backward jump, past which the owner's old value may still be read. -/
def coversJump (loops : List Loop) (hole : Interval) : Bool :=
  loops.any fun l => hole.min < l.stop && (l.stop : Int) < hole.max

/-- Settles the block of a register's interval; the stack pointer lives throughout the kernel. -/
def settle (k : Kernel) (u : Usage) (iv : Interval) : Interval :=
  let iv := if u.multiBlock then iv else { iv with block := u.lastBlock }
  if iv.reg = k.stackPointer then
    { iv with
      min := if iv.min ≤ 0 then iv.min else 0
      max := if iv.max < (k.code.length : Int) - 1 then (k.code.length : Int) - 1 else iv.max
      block := noBlock }
  else
    iv

/-- The intervals of a kernel. -/
def ofKernel (k : Kernel) : Liveness :=
  let w := k.walk
  let loops := k.loops
  let store := w.usage.entries.foldl
    (fun s (_, u) => s.modify u.index fun iv => widen k loops (settle k u iv)) w.store
  let holes := w.holes.filter fun h => !coversJump loops h
  { store := (holes.foldl IntervalStore.add store).sorted
    index := ⟨w.usage.entries.map fun (r, u) => (r, u.index)⟩
    bound := k.registerBound
    maxOperands := w.maxOperands
    maxRegSize := w.store.intervals.foldl
      (fun n iv => if n < iv.slot then iv.slot else n) 0
    holes := holes.length }

/-- The liveness of a bare list of intervals, in which the last live interval of a register counts. -/
def ofIntervals (ivs : List Interval) : Liveness where
  store := ivs.foldl IntervalStore.add .empty
  index := ivs.zipIdx.foldl
    (fun index (iv, n) => if iv.hole then index else index.insert iv.reg.number n) .empty
  bound := ivs.foldl (fun n iv => max n (iv.reg.number.toNat + 1)) 0
  maxOperands := 0
  maxRegSize := 0
  holes := 0

end Liveness

end GpuCodegen
