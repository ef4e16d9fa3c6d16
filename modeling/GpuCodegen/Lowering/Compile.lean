import GpuCodegen.Diagnostic.Collector
import GpuCodegen.Lowering.Emission
import GpuCodegen.Lowering.Fixup
import GpuCodegen.Lowering.Program

/-!
Compilation: selection, allocation, emission, fixups and the resolution of jumps against the final
word positions. `Kernel.compile` compiles for one generation, `Kernel.compileAll` for several.
-/

namespace GpuCodegen

open Native

/-- A jump to be resolved: its word before fixups, its label and its instruction. -/
structure PendingJump where
  word : Nat
  label : Int
  position : Nat
  deriving DecidableEq, Repr

/-- Emission in progress. -/
structure Emitter where
  assembler : Assembler
  /-- Word positions of labels, before fixups. -/
  labels : List (Int × Nat) := []
  jumps : List PendingJump := []
  deriving Repr

namespace Emitter

/-- The word position of a label. -/
def label? (m : Emitter) (label : Int) : Option Nat :=
  (m.labels.find? fun e => e.1 == label).map (·.2)

/-- What the assembler told so far. -/
def log (m : Emitter) : List CompileEvent := m.assembler.log.map .assembly

/-- A failure at an instruction. -/
def stopAt (m : Emitter) (d : Diagnostic) (position : Nat) : Stopped CompileEvent :=
  ⟨d.atPosition position, m.log⟩

/-- Fails at an instruction if the assembler recorded a failure. -/
def checkpoint (m : Emitter) (position : Nat) : Except (Stopped CompileEvent) Emitter :=
  match m.assembler.error with
  | some d => .error (m.stopAt d position)
  | none => .ok m

/-- Defines a label at the current word. -/
def defineLabel (m : Emitter) (i : Instruction) (position : Nat) :
    Except (Stopped CompileEvent) Emitter :=
  match m.label? i.label with
  | some _ => .error (m.stopAt (.encoding (.duplicateLabel i.label)) position)
  | none =>
    checkpoint { m with labels := m.labels ++ [(i.label, m.assembler.words.length)] } position

/-- Emits a jump that is resolved later. -/
def emitJump (m : Emitter) (f : Emission.Frame) (i : Instruction) (position : Nat) :
    Except (Stopped CompileEvent) Emitter :=
  let s := Emission.instructionState f.base i (f.allocation.kernel.widthOf i)
  let index := m.assembler.words.length
  let m := { m with assembler := m.assembler.run ⟨s, .jump 0⟩ }
  checkpoint { m with jumps := m.jumps ++ [⟨index, i.label, position⟩] } position

/-- Emits one instruction. -/
def step (f : Emission.Frame) (m : Emitter) (entry : Instruction × Nat) :
    Except (Stopped CompileEvent) Emitter :=
  let (i, position) := entry
  match i.op with
  | .label => m.defineLabel i position
  | .jump => m.emitJump f i position
  | _ =>
    match Emission.instruction f i with
    | .ok issues => { m with assembler := m.assembler.runAll issues }.checkpoint position
    | .error e =>
      .error ({ m with assembler := m.assembler.runAll e.log }.stopAt e.diagnostic position)

/-- Points a jump to the final position of its label. -/
def resolve (m : Emitter) (remap : List Nat) (a : Assembler) (j : PendingJump) :
    Except Diagnostic Assembler :=
  match m.label? j.label with
  | none => .error ((Diagnostic.encoding (.undefinedLabel j.label)).atPosition j.position)
  | some target =>
    (a.patchJump (remap.getD j.word 0) (remap.getD target 0)).mapError (·.atPosition j.position)

end Emitter

/-- A compiled kernel with the allocation it uses. -/
structure Compilation where
  program : Program
  allocation : Allocation
  deriving Repr

namespace Context

/-- The words of an allocated kernel: its instructions are emitted, fixed up and their jumps
resolved. -/
def emit (c : Context) (a : Allocation) :
    Except (Stopped CompileEvent) (List Word × List CompileEvent) := do
  let assembler ← (Assembler.new c.generation c.simdWidth).mapError fun d => ⟨d, []⟩
  let frame : Emission.Frame := ⟨c.flavor, a, assembler.state⟩
  let m ← a.kernel.code.zipIdx.foldlM (Emitter.step frame) { assembler := assembler }
  if m.assembler.depth ≠ 0 then
    throw ⟨.encoding (.statesLeftPushed m.assembler.depth), m.log⟩
  let fixed := Fixup.applyAll c.generation (Fixup.ofFlavor c.flavor) m.assembler.words
  let log := m.log ++ fixed.log
  let final ← (m.jumps.foldlM (m.resolve fixed.remap)
    { m.assembler with words := fixed.words }).mapError fun d => ⟨d, log⟩
  return (final.words, log ++ [.emitted fixed.words.length])

/-- How the allocator is set up for the context's device. -/
def sweepConfig (c : Context) : SweepConfig where
  fileSize := c.device.registerFileBytes
  reservedLow := grfSize
  holeReuse := c.settings.holeReuse
  policy := c.settings.policy
  scratchLimit := c.device.scratchPerThread

/-- A failure at the context's kernel variant, after earlier events. -/
def stop (c : Context) (d : Diagnostic) (log : List CompileEvent) : Stopped CompileEvent :=
  ⟨d.within c.location, log⟩

/-- Compiles the context's kernel, after the events of the context's creation. -/
def compile (c : Context) (log : List CompileEvent) :
    Except (Stopped CompileEvent) (Compilation × List CompileEvent) := do
  let selected ← c.select.mapError fun d => c.stop d log
  let log := log ++ [.selected selected.code.length]
  let (a, events) ← (Allocation.ofKernel selected c.sweepConfig).mapError fun e =>
    c.stop e.diagnostic (log ++ e.log.map .allocation)
  let log := log ++ events.map .allocation
  let scratch := c.generation.alignScratch a.scratchSize
  if c.device.scratchPerThread < scratch then
    throw (c.stop
      { cause := .placement (.scratchBudget scratch c.device.scratchPerThread c.device.name) } log)
  let log := if 0 < a.spills then log ++ [.spilled a.spills scratch] else log
  let (words, events) ← (c.emit a).mapError fun e => c.stop e.diagnostic (log ++ e.log)
  return (
    { program :=
        { kernel := c.kernel.name, generation := c.generation, simdWidth := c.simdWidth,
          words := words, scratchSize := scratch, stackSize := c.kernel.stackSize }
      allocation := a },
    log ++ events)

end Context

namespace Kernel

/-- Compiles a kernel for a generation. -/
def compile (k : Kernel) (g : Generation) (settings : Settings) (variant : String) :
    Except (Stopped CompileEvent) (Compilation × List CompileEvent) := do
  let _ ← (Device.ofGeneration g).mapError fun d => ⟨d, []⟩
  let (c, log) ← Context.new g k settings variant
  c.compile log

/-- Records the outcome of one generation: a failure, or a warning about a kernel compiled for fewer
lanes than it asks for. -/
def collect (k : Kernel) (c : Collector) (outcome : Generation × Except Diagnostic Program) :
    Collector :=
  match outcome with
  | (g, .error d) => c.add (d.within { generation := g.name })
  | (g, .ok p) =>
    if p.simdWidth < k.simdWidth then
      c.warn { kernel := k.name, generation := g.name } (.narrowed p.simdWidth k.simdWidth)
    else
      c

/-- Compiles a kernel for several generations. Every failure is collected, in the order of the
generations. -/
def compileAll (k : Kernel) (gens : List Generation) (settings : Settings) (variant : String) :
    List (Generation × Except Diagnostic Program) × Collector :=
  let outcomes := gens.map fun g =>
    (g, match k.compile g settings variant with
      | .ok (r, _) => .ok r.program
      | .error e => .error e.diagnostic)
  (outcomes, outcomes.foldl (collect k) (Collector.ofLimit gens.length))

end Kernel

end GpuCodegen
