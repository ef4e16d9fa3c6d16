import GpuCodegen.Diagnostic.Basic
import GpuCodegen.Target.Feature

/-!
Devices: the fixed resources of each generation, and how scratch sizes are rounded to what a
generation can program.
-/

namespace GpuCodegen

/-- One kibibyte. -/
def kib : UInt32 := 1024

/-- The resources of one generation's device. -/
structure Device where
  generation : Generation
  name : String
  /-- Execution units. -/
  units : Nat
  threadsPerUnit : Nat
  /-- Register file bytes per hardware thread. -/
  registerFileBytes : UInt32
  localMemoryBytes : UInt32
  /-- Upper bound on scratch bytes per thread. -/
  scratchPerThread : UInt32
  maxSimd : Int
  deriving DecidableEq, Repr

namespace Device

/-- The number of general registers per thread. -/
def registers (d : Device) : Nat := (d.registerFileBytes / 32).toNat

/-- A device with the resources all generations share. -/
def of (g : Generation) (name : String) (units threads : Nat) (scratch : UInt32) : Device where
  generation := g
  name := name
  units := units
  threadsPerUnit := threads
  registerFileBytes := 4096
  localMemoryBytes := 64 * kib
  scratchPerThread := scratch
  maxSimd := 16

/-- The device of a generation; unlisted generations have none. -/
def ofGeneration? : Generation → Option Device
  | .gen6 => some (of .gen6 "Sandy Bridge GT2" 12 5 (12 * kib))
  | .gen7 => some (of .gen7 "Ivy Bridge GT2" 16 8 (12 * kib))
  | .gen75 => some (of .gen75 "Haswell GT2" 20 7 (2048 * kib))
  | .gen8 => some (of .gen8 "Broadwell GT2" 24 7 (2048 * kib))
  | .chv => some (of .chv "Cherryview" 16 7 (2048 * kib))
  | .gen9 => some (of .gen9 "Skylake GT2" 24 7 (2048 * kib))
  | .bxt => some (of .bxt "Broxton" 18 6 (2048 * kib))
  | .kbl => some (of .kbl "Kaby Lake GT2" 24 7 (2048 * kib))
  | .glk => some (of .glk "Gemini Lake" 18 6 (2048 * kib))
  | .unlisted _ => none

/-- The device of a generation, or why there is none. -/
def ofGeneration (g : Generation) : Except Diagnostic Device :=
  match ofGeneration? g with
  | some d => .ok d
  | none => .error (.unimplemented (.device g))

/-- One line about a device. -/
def text (d : Device) : String :=
  s!"{d.name} ({d.generation.name}, {d.units} EUs x {d.threadsPerUnit} threads, " ++
    s!"{d.registers} GRFs, {Text.ByteSize.text d.scratchPerThread.toNat} scratch/thread)"

/-- The generation's name with the device's. -/
def fullName (d : Device) : String := d.generation.name ++ " (" ++ d.name ++ ")"

end Device

namespace Generation

/-- Doubles `aligned` until it reaches `size`, at most `steps` times. -/
def doubleUntil (size : UInt32) : Nat → UInt32 → UInt32
  | 0, aligned => aligned
  | steps + 1, aligned => if aligned < size then doubleUntil size steps (aligned * 2) else aligned

/-- Rounds a scratch size per thread up to what the generation can program: multiples of one
kibibyte up to Ivy Bridge, powers of two of at least one kibibyte from Haswell on. -/
def alignScratch (g : Generation) (size : UInt32) : UInt32 :=
  if size = 0 then 0
  else if g.number ≤ Generation.gen7.number then (size + kib - 1) &&& ~~~(kib - 1)
  else doubleUntil size 21 kib

end Generation

end GpuCodegen
