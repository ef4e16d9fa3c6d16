import GpuCodegen.Registers.Sweep

/-!
Spill code. Every access to a spilled register goes through a temporary pinned into the reserve at
the top of the register file: sources are reloaded before the instruction, destinations written back
after it, and reloaded first when the instruction does not overwrite all of them. A destination's
temporary sits right after the message header, so that header and data form one message.
-/

namespace GpuCodegen

/-- The part of the register file kept for spill code: a message header, then data. -/
structure Reserve where
  header : UInt32
  size : UInt32
  deriving DecidableEq, Repr

namespace Reserve

/-- Where the data starts. -/
def data (r : Reserve) : UInt32 := r.header + 32

/-- Where the reserve ends. -/
def limit (r : Reserve) : UInt32 := r.header + r.size

end Reserve

/-- A temporary that stands for a spilled register inside one instruction's spill code. -/
structure SpillTemp where
  /-- The spilled register. -/
  owner : VReg
  reg : VReg
  /-- The scratch byte offset. -/
  slot : UInt32
  size : UInt32
  /-- Whether the register is reloaded before the instruction. -/
  reload : Bool := false
  /-- Whether the register is written back after the instruction. -/
  store : Bool := false
  deriving DecidableEq, Repr

namespace SpillTemp

/-- The temporary as a message operand. -/
def operand (t : SpillTemp) : Operand := .payload t.reg .ud (t.size / 32).toNat

/-- Reads the temporary from scratch memory. -/
def reloadInstruction (t : SpillTemp) (block : Int) : Instruction :=
  { op := .reload, dst := t.operand, execWidth := 8, block := block, offset := t.slot }

/-- Writes the temporary to scratch memory. -/
def spillInstruction (t : SpillTemp) (block : Int) : Instruction :=
  { op := .spill, src := [t.operand], execWidth := 8, block := block, offset := t.slot }

end SpillTemp

/-- What spill code insertion needs to know about the sweep before it. -/
structure SpillPlan where
  liveness : Liveness
  /-- Scratch offsets of the spilled registers. -/
  scratch : RegisterMap
  spilled : List VReg
  reserve : Reserve

/-- The temporaries of one instruction while they are handed out. -/
structure TempState where
  /-- The kernel that receives the instruction; temporaries are numbered and pinned in it. -/
  out : Kernel
  /-- The next free byte of the reserve. -/
  cursor : UInt32
  /-- The temporaries so far, in order. -/
  temps : List SpillTemp := []

namespace TempState

/-- The temporary of a spilled register. -/
def find? (s : TempState) (r : VReg) : Option SpillTemp :=
  s.temps.find? fun t => t.owner == r

/-- Hands out a temporary, if the reserve has room for it. -/
def newTemp (plan : SpillPlan) (position : Nat) (s : TempState) (r : VReg) (reload store : Bool) :
    Except Diagnostic TempState :=
  let size := ((plan.liveness.intervalOf? r).map Sweep.scratchBytes).getD 32
  if plan.reserve.limit < s.cursor + size then
    let d := Diagnostic.placement (.reserveFull position plan.reserve.size) r
    .error { d with location := { d.location with instruction := some position } }
  else
    let t : SpillTemp :=
      { owner := r, reg := s.out.freshRegister, slot := (plan.scratch.get r), size := size,
        reload := reload, store := store }
    .ok
      { out := s.out.allocRegister.pin t.reg s.cursor
        cursor := s.cursor + size
        temps := s.temps ++ [t] }

/-- Makes sure a spilled source has a temporary that is reloaded. -/
def source (plan : SpillPlan) (position : Nat) (s : TempState) (o : Operand) :
    Except Diagnostic TempState :=
  match o.register? with
  | none => .ok s
  | some x =>
    if plan.spilled.contains x.reg then
      match s.find? x.reg with
      | some _ =>
        .ok { s with
              temps := s.temps.map fun t =>
                if t.owner = x.reg then { t with reload := true } else t }
      | none => newTemp plan position s x.reg true false
    else
      .ok s

/-- The register that stands for `r` in the instruction. -/
def rename (s : TempState) (r : VReg) : VReg :=
  match s.find? r with
  | some t => t.reg
  | none => r

end TempState

namespace Kernel

/-- The end of the highest place in the reserve that an operand is already pinned to, rounded up to
a general register; the start of the data when there is none. -/
def reserveInUse (k : Kernel) (i : Instruction) (reserve : Reserve) : UInt32 :=
  let stop := i.registers.foldl
    (fun stop o =>
      match k.pin? o.reg with
      | some offset =>
        if reserve.data ≤ offset && offset < reserve.limit then
          max stop (offset + o.storage (k.widthOf i))
        else
          stop
      | none => stop)
    reserve.data
  alignUp stop 32

/-- The temporary of a spilled destination. -/
def spilledDestination (k : Kernel) (plan : SpillPlan) (position : Nat) (i : Instruction)
    (s : TempState) : Except Diagnostic TempState :=
  match i.dst.register? with
  | none => .ok s
  | some dst =>
    if plan.spilled.contains dst.reg then
      if plan.reserve.data < k.reserveInUse i plan.reserve then
        let d := Diagnostic.placement (.destinationCollides dst.reg) dst.reg
        .error { d with location := { d.location with instruction := some position } }
      else
        TempState.newTemp plan position s dst.reg (!k.fullyDefines i dst || 1 < dst.spans) true
    else
      .ok s

/-- The temporaries of one instruction. -/
def spillTemps (k : Kernel) (plan : SpillPlan) (position : Nat) (i : Instruction) (out : Kernel) :
    Except Diagnostic TempState := do
  let s ← k.spilledDestination plan position i { out := out, cursor := plan.reserve.data }
  let s := { s with cursor := max s.cursor (k.reserveInUse i plan.reserve) }
  i.src.foldlM (TempState.source plan position) s

/-- An instruction with its reloads before it and its write-back after it. -/
def withSpillCode (i : Instruction) (s : TempState) : List Instruction :=
  (s.temps.filter SpillTemp.reload).map (fun t => t.reloadInstruction i.block) ++
    [{ i with dst := i.dst.rename s.rename, src := i.src.map fun o => o.rename s.rename }] ++
    (s.temps.filter SpillTemp.store).map (fun t => t.spillInstruction i.block)

/-- Appends an instruction with its spill code. -/
def spillStep (k : Kernel) (plan : SpillPlan) (out : Kernel) (entry : Instruction × Nat) :
    Except Diagnostic Kernel := do
  let s ← k.spillTemps plan entry.2 entry.1 out
  return s.out.emitAll (withSpillCode entry.1 s)

/-- The kernel with spill code around every access to a spilled register. -/
def insertSpillCode (k : Kernel) (plan : SpillPlan) : Except Diagnostic Kernel :=
  let out := k.cloneEmpty
  let out := if plan.spilled.contains k.stackPointer then { out with stackPointer := .none } else out
  k.code.zipIdx.foldlM (spillStep k plan) out

end Kernel

end GpuCodegen
