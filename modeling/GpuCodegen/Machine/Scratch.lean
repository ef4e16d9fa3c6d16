import GpuCodegen.Assembler.Encode
import GpuCodegen.Machine.Basic

/-!
A machine with scratch memory. The first register of a scratch message, its header, names the space of
scratch memory that the message reaches; its function control says how many registers it moves and at
which byte offset. A write stores the registers that follow the header, and a read loads registers from
the destination on. Other instructions are those of `Machine`.
-/

namespace GpuCodegen

open Native

/-- The memory with a range of bytes taken from another memory. -/
def Memory.copy (m : Memory) (start : Nat) (other : Memory) (first count : Nat) : Memory := fun a =>
  if start ≤ a ∧ a < start + count then other (first + (a - start)) else m a

/-- A machine and the spaces of scratch memory, each under the header that names it. -/
structure ScratchMachine where
  machine : Machine
  spaces : List UInt8 → Memory

namespace ScratchMachine

/-- What a scratch message asks for. -/
structure Transfer where
  writes : Bool
  /-- The first byte of the range. -/
  offset : Nat
  registers : Nat
  deriving DecidableEq, Repr

/-- The registers that the code of a block stands for. -/
def blockRegisters? : Nat → Option Nat
  | 0 => some 1
  | 1 => some 2
  | 3 => some 4
  | _ => none

/-- Reads a function control. Bit 18 marks scratch messages. -/
def transfer? (function : UInt32) : Option Transfer :=
  let n := function.toNat
  if n.testBit 18 then
    (blockRegisters? (n / 4096 % 4)).map fun registers => ⟨n.testBit 17, 32 * (n % 4096), registers⟩
  else
    none

/-- The transfer of an instruction that is a scratch message, with the descriptor. -/
def transferOf? (g : Generation) (d : Decoded) : Option (Transfer × Descriptor) :=
  d.message.bind fun message =>
    if message.target = g.memoryFunction then
      (transfer? message.descriptor.function).map fun t => (t, message.descriptor)
    else
      none

/-- The content of a general register. -/
def row (m : Machine) (number : Nat) : List UInt8 :=
  (List.range 32).map fun i => m.registers (32 * number + i)

/-- Stores the registers that follow a header. -/
def store (t : ScratchMachine) (header offset registers : Nat) : ScratchMachine :=
  { t with
    spaces := fun name =>
      if name = row t.machine header then
        (t.spaces name).copy offset t.machine.registers (32 * (header + 1)) (32 * registers)
      else
        t.spaces name }

/-- Loads registers. -/
def load (t : ScratchMachine) (header dst offset registers : Nat) : ScratchMachine :=
  { t with
    machine :=
      { t.machine with
        registers := t.machine.registers.copy (32 * dst) (t.spaces (row t.machine header)) offset
          (32 * registers) } }

/-- Executes one instruction. There is no result for a scratch message whose lengths are not those of its
transfer. -/
def step (g : Generation) (t : ScratchMachine) (d : Decoded) : Option ScratchMachine :=
  match transferOf? g d with
  | none => (t.machine.step d).map fun m => { t with machine := m }
  | some (transfer, descriptor) =>
    let header := (d.sources.headD default).number.toNat
    if transfer.writes then
      if descriptor.messageLength.toNat = 1 + transfer.registers then
        some (t.store header transfer.offset transfer.registers)
      else
        none
    else if descriptor.messageLength.toNat = 1 ∧ descriptor.responseLength.toNat = transfer.registers then
      some (t.load header d.dst.number.toNat transfer.offset transfer.registers)
    else
      none

/-- Executes the words of a program in order. -/
def run (g : Generation) (t : ScratchMachine) (program : List Word) : Option ScratchMachine :=
  program.foldlM (fun t w => (g.layout.decode w).toOption.bind (step g t)) t

end ScratchMachine

end GpuCodegen
