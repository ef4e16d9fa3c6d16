import GpuCodegen.Registers.SpillCode

/-!
Register allocation. The first sweep uses the whole register file. If it spills, the top of the file
is reserved for a scratch message header and the temporaries of one instruction, spill code is
inserted, and the sweep repeated on the new stream until nothing spills.
-/

namespace GpuCodegen

/-- A step of allocation worth telling. -/
inductive AllocationEvent where
  | sweep (e : PlacementEvent)
  | reserving (spills : Nat) (reserve header : UInt32)
  deriving DecidableEq, Repr

/-- The trace line of an event. -/
def AllocationEvent.line : AllocationEvent → TraceLine
  | .sweep e => e.line
  | .reserving spills reserve header =>
    { text := "%d spills without reserve, reserving %d bytes at %d"
      values := [.int spills, .word reserve, .word header] }

/-- The register assignment of a kernel. -/
structure Allocation where
  /-- The stream to encode, with spill code inserted. -/
  kernel : Kernel
  offsets : RegisterMap
  /-- Spill bytes per thread. -/
  scratchSize : UInt32 := 0
  spills : Nat := 0
  holeReuses : Nat := 0
  /-- The byte offset of the scratch message header. -/
  header : UInt32 := unmapped
  deriving Repr

namespace Allocation

/-- Whether spill code was inserted. -/
def hasSpills (a : Allocation) : Bool := a.header != unmapped

/-- How often spill code may be inserted. -/
def maxRounds : Nat := 4

/-- An allocation with the events on the way to it. -/
abbrev Result := Except (Stopped AllocationEvent) (Allocation × List AllocationEvent)

/-- One sweep as a step of allocation, after the events of earlier steps. -/
def sweep (k : Kernel) (lv : Liveness) (cfg : SweepConfig) (reserve scratch : UInt32)
    (log : List AllocationEvent) :
    Except (Stopped AllocationEvent) (Sweep × List AllocationEvent) :=
  match Sweep.run k lv cfg reserve scratch with
  | .ok s => .ok (s, log ++ s.log.map .sweep)
  | .error e => .error (e.lift log .sweep)

/-- Sweeps with a reserve and inserts spill code, for the given number of rounds. `last` is the
register spilled first in the round before. -/
def rounds (cfg : SweepConfig) (reserve : Reserve) :
    Nat → (k : Kernel) → (lv : Liveness) → (scratch : UInt32) → (spills : Nat) → (last : VReg) →
      List AllocationEvent → Result
  | 0, _, _, _, _, last, log =>
    .error ⟨.placement (.stillSpilling last maxRounds) last, log⟩
  | n + 1, k, lv, scratch, spills, _, log => do
    let (s, log) ← sweep k lv cfg reserve.size scratch log
    match s.spilled with
    | [] =>
      return ({ kernel := k, offsets := s.offsets, scratchSize := scratch, spills := spills,
                holeReuses := s.holeReuses, header := reserve.header }, log)
    | first :: _ =>
      match k.insertSpillCode ⟨lv, s.scratch, s.spilled, reserve⟩ with
      | .error d => throw ⟨d, log⟩
      | .ok k' =>
        rounds cfg reserve n k' (Liveness.ofKernel k') s.scratchSize
          (spills + s.spilled.length) first log

/-- The reserve for spill code: a header and a temporary for every operand of the busiest
instruction. -/
def reserveFor (cfg : SweepConfig) (lv : Liveness) : Reserve :=
  let size := alignUp (32 + UInt32.ofNat lv.maxOperands * lv.maxRegSize) 32
  ⟨cfg.fileSize - size, size⟩

/-- Places every register of a kernel. -/
def ofKernel (k : Kernel) (cfg : SweepConfig) : Result := do
  let lv := Liveness.ofKernel k
  let (s, log) ← sweep k lv cfg 0 0 []
  match s.spilled with
  | [] => return ({ kernel := k, offsets := s.offsets, holeReuses := s.holeReuses }, log)
  | first :: _ =>
    let reserve := reserveFor cfg lv
    rounds cfg reserve maxRounds k lv 0 0 first
      (log ++ [.reserving s.spilled.length reserve.size reserve.header])

end Allocation

end GpuCodegen
