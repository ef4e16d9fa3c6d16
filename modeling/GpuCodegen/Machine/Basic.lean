import GpuCodegen.Machine.Memory
import GpuCodegen.Native.Decoded

/-!
A machine that executes instruction words lane by lane: integer arithmetic, moves, selections and
comparisons over the general registers, the address register and one flag register. Every lane
reads its sources before any lane writes. Messages, waits and jumps are passed over, so a program
runs from its first word to its last.
-/

namespace GpuCodegen

open Native

/-- The state that instructions read and write. -/
structure Machine where
  /-- The general registers, one after the other. -/
  registers : Memory
  /-- The entries of the address register, two bytes each. -/
  address : Memory
  /-- One bit for each lane of the thread. -/
  flag : UInt32

namespace Native

namespace DataType

/-- Widens the bits of an element to 64 bits by its sign; other bits are dropped. -/
def extend (t : DataType) (bits : UInt64) : UInt64 :=
  match t with
  | .ub => bits.toUInt8.toUInt64
  | .b => bits.toUInt8.toInt8.toInt64.toUInt64
  | .uw | .hf => bits.toUInt16.toUInt64
  | .w => bits.toUInt16.toInt16.toInt64.toUInt64
  | .ud | .f | .v => bits.toUInt32.toUInt64
  | .d => bits.toUInt32.toInt32.toInt64.toUInt64
  | .ul | .l | .df => bits
  | .unlisted _ => 0

/-- The bits of an element without those above it. -/
def clip (t : DataType) (bits : UInt64) : UInt64 :=
  match t.size with
  | 1 => bits.toUInt8.toUInt64
  | 2 => bits.toUInt16.toUInt64
  | 4 => bits.toUInt32.toUInt64
  | _ => bits

end DataType

/-- The element of a region that a lane takes, counted from its first. -/
def Region.element (r : Region) (lane : Nat) : Nat :=
  lane / Nat.pow 2 r.width.toNat * (strideElems r.vertical).toNat +
    lane % Nat.pow 2 r.width.toNat * (strideElems r.horizontal).toNat

/-- The value of a packed immediate in a lane: one of its eight signed four-bit parts. -/
def packedLane (bits : UInt64) (lane : Nat) : UInt64 :=
  let part := (bits >>> UInt64.ofNat (4 * (lane % 8))) &&& 0xf
  ((part <<< 60).toInt64 >>> 60).toUInt64

/-- The type of the first source. -/
def Decoded.firstType (d : Decoded) : DataType := (d.sources.headD default).type

/-- The bits of a shift amount that count: six if qwords take part, else five. -/
def Decoded.shiftMask (d : Decoded) : UInt64 :=
  if d.dst.type.is64 || d.firstType.is64 then 63 else 31

/-- The lanes an instruction works on. -/
def Decoded.lanes (d : Decoded) : List Nat := List.range d.execSize.toNat

end Native

namespace Machine

/-- An entry of the address register. -/
def entry (m : Machine) (n : Nat) : UInt16 := (m.address.load (2 * n) 2).toUInt16

/-- The byte address of a lane's element of a register source. -/
def sourceAddress (m : Machine) (r : Register) (lane : Nat) : Nat :=
  match r.indirect with
  | some a => ((m.entry (a.entry.toNat + lane)).toUInt32 + a.offset.toUInt32).toNat
  | none => r.byteOffset.toNat + r.region.element lane * r.type.size

/-- The bits of a lane's element of a source, widened by its type. -/
def element (m : Machine) (r : Register) (lane : Nat) : UInt64 :=
  if r.file = .imm then
    if r.type = .v then packedLane r.immediate lane else r.type.extend r.immediate
  else
    r.type.extend (m.registers.load (m.sourceAddress r lane) r.type.size)

/-- The value a lane reads from a source: the element with the modifiers of the source applied. -/
def source (m : Machine) (r : Register) (lane : Nat) : UInt64 :=
  let v := m.element r lane
  let v := if r.absolute && decide (v.toInt64 < 0) then -v else v
  if r.negate then -v else v

/-- The values a lane reads, in operand order. -/
def inputs (m : Machine) (d : Decoded) (lane : Nat) : List UInt64 :=
  d.sources.map fun r => m.source r lane

/-- The flag bit of a lane of an instruction. -/
def flagBit (m : Machine) (d : Decoded) (lane : Nat) : Bool :=
  m.flag.toNat.testBit (8 * d.quarter.toNat + lane)

/-- Sets or clears the flag bit of a lane of an instruction. -/
def setFlagBit (m : Machine) (d : Decoded) (lane : Nat) (on : Bool) : Machine :=
  let bit := UInt32.ofNat (1 <<< (8 * d.quarter.toNat + lane))
  { m with flag := if on then m.flag ||| bit else m.flag &&& ~~~bit }

/-- Whether the predicate of an instruction lets a lane through. -/
def enabled (m : Machine) (d : Decoded) (lane : Nat) : Bool :=
  d.predicate == 0 || m.flagBit d lane != d.predInvert

/-- Stores the result of a lane. Results that go to no register are dropped. -/
def put (m : Machine) (dst : Register) (lane : Nat) (value : UInt64) : Machine :=
  let step := lane * (strideElems dst.region.horizontal).toNat * dst.type.size
  if dst.file = .grf then
    { m with registers := m.registers.store (dst.byteOffset.toNat + step) dst.type.size value }
  else if dst.file = .arf ∧ dst.number = Register.addressNumber then
    { m with address := m.address.store (dst.sub.toNat + step) dst.type.size value }
  else
    m

/-- Stores a result for each chosen lane. The results are those of the machine before the first
store. -/
def write (m : Machine) (d : Decoded) (chosen : Nat → Bool) (result : Nat → UInt64) : Machine :=
  (d.lanes.filter chosen).foldl (fun acc lane => acc.put d.dst lane (result lane)) m

/-- Computes each enabled lane from the values it reads. -/
def map (m : Machine) (d : Decoded) (f : List UInt64 → UInt64) : Machine :=
  m.write d (m.enabled d) fun lane => f (m.inputs d lane)

/-- Takes each lane from the first source where the predicate lets it through, else from the
second. -/
def select (m : Machine) (d : Decoded) : Machine :=
  m.write d (fun _ => true) fun lane =>
    (m.inputs d lane).getD (if m.enabled d lane then 0 else 1) 0

/-- Whether two values are related as a condition code asks; values compare as signed. -/
def holds (condition : UInt32) (a b : UInt64) : Bool :=
  match condition.toNat with
  | 1 => a == b
  | 2 => a != b
  | 3 => decide (b.toInt64 < a.toInt64)
  | 4 => decide (b.toInt64 ≤ a.toInt64)
  | 5 => decide (a.toInt64 < b.toInt64)
  | 6 => decide (a.toInt64 ≤ b.toInt64)
  | _ => false

/-- Sets the flag bit of every lane to the outcome of a comparison. -/
def compare (m : Machine) (d : Decoded) : Machine :=
  d.lanes.foldl (fun acc lane =>
    let values := m.inputs d lane
    acc.setFlagBit d lane (holds d.condition (values.getD 0 0) (values.getD 1 0))) m

/-- What an arithmetic operation makes of the two values a lane reads; a move and a complement take
the first. -/
def arithmetic? (d : Decoded) : Option (UInt64 → UInt64 → UInt64) :=
  match d.opcode with
  | .mov => some fun a _ => a
  | .not => some fun a _ => ~~~a
  | .add => some fun a b => a + b
  | .mul => some fun a b => a * b
  | .and => some fun a b => a &&& b
  | .or => some fun a b => a ||| b
  | .xor => some fun a b => a ^^^ b
  | .shl => some fun a b => a <<< (b &&& d.shiftMask)
  | .shr => some fun a b => d.firstType.clip a >>> (b &&& d.shiftMask)
  | .asr => some fun a b => (a.toInt64 >>> (b &&& d.shiftMask).toInt64).toUInt64
  | _ => none

/-- Executes one instruction. There is no result for an operation outside the machine. -/
def step (m : Machine) (d : Decoded) : Option Machine :=
  match d.opcode with
  | .send | .wait | .nop | .jmpi => some m
  | .cmp => some (m.compare d)
  | .sel => some (m.select d)
  | _ =>
    (arithmetic? d).map fun f =>
      m.map d fun values => f (values.getD 0 0) (values.getD 1 0)

/-- Executes the words of a program in order. There is no result if one of them has no decoded form
or is outside the machine. -/
def run (m : Machine) (l : Layout) (program : List Word) : Option Machine :=
  program.foldlM (fun m w => (l.decode w).toOption.bind m.step) m

end Machine

end GpuCodegen
