import GpuCodegen.Lowering.Flavor
import GpuCodegen.Registers.Allocation

/-!
Lowering contexts: one kernel, one generation and the settings, checked against each other. This
module also names everything a compilation tells about itself.
-/

namespace GpuCodegen

open Native

/-- A step of a compilation worth telling. -/
inductive CompileEvent where
  | narrowed (width : Int)
  | selected (instructions : Nat)
  | allocation (e : AllocationEvent)
  | spilled (spills : Nat) (scratch : UInt32)
  | assembly (e : AssemblyEvent)
  | splitTriples (count : Nat)
  | fenced (count : Nat)
  | fenceSkipped (d : Diagnostic)
  | emitted (words : Nat)
  deriving DecidableEq, Repr

/-- The trace line of an event. -/
def CompileEvent.line (g : Generation) : CompileEvent → TraceLine
  | .narrowed width => { text := "clamping SIMD%d to SIMD8", values := [.int width] }
  | .selected instructions =>
    { text := "selected %d instructions", values := [.int instructions] }
  | .allocation e => e.line.under "regalloc"
  | .spilled spills scratch =>
    { text := "%d spills, %s of scratch per thread"
      values := [.int spills, .text (Text.ByteSize.text scratch.toNat)] }
  | .assembly e => (e.line g.layout).under (Assembler.scope g)
  | .splitTriples count =>
    { text := "split %d SIMD16 3-source instructions", values := [.int count] }
  | .fenced count => { text := "inserted %d render cache fences", values := [.int count] }
  | .fenceSkipped d => { text := "fence workaround skipped: %v", values := [d.value] }
  | .emitted words => { text := "emitted %d words", values := [.int words] }

/-- A kernel to be lowered for one generation. -/
structure Context where
  generation : Generation
  device : Device
  flavor : Flavor
  /-- The short form of the variant's identity. -/
  variant : String
  simdWidth : Int
  kernel : Kernel
  settings : Settings
  deriving Repr

namespace Context

/-- The place of a kernel variant. -/
def locationOf (g : Generation) (k : Kernel) (variant : String) : Location where
  kernel := k.name
  variant := variant
  generation := g.name

/-- The place of the context's kernel variant. -/
def location (c : Context) : Location := locationOf c.generation c.kernel c.variant

/-- The scope of a kernel variant's trace lines. -/
def scope (g : Generation) (k : Kernel) (variant : String) : String :=
  s!"{k.name}/{g.name} {variant}"

/-- The trace of a compilation. -/
def trace (g : Generation) (k : Kernel) (variant : String) (log : List CompileEvent) :
    List TraceLine :=
  log.map fun e => (e.line g).under (scope g k variant)

/-- The context of a kernel on a generation, with what was told on the way. Sandy Bridge runs eight
lanes only. -/
def new (g : Generation) (k : Kernel) (settings : Settings) (variant : String) :
    Except (Stopped CompileEvent) (Context × List CompileEvent) :=
  match Flavor.ofGeneration g, Device.ofGeneration? g with
  | .error d, _ => .error ⟨d, []⟩
  | .ok _, none => .error ⟨.config (.described (Gap.device g).message), []⟩
  | .ok flavor, some device =>
    let place := locationOf g k variant
    let asked := if settings.simdWidth ≠ 0 then settings.simdWidth else k.simdWidth
    if asked ≠ 8 ∧ asked ≠ 16 then
      .error ⟨((Diagnostic.config (.simdWidth asked)).withSuggestion
        "compile with a SIMD width of 8 or 16").within place, []⟩
    else
      let width := min asked device.maxSimd
      let narrow := g == .gen6 && decide (8 < width)
      let log := if narrow then [CompileEvent.narrowed width] else []
      if settings.maxStackSize < k.stackSize then
        .error ⟨((Diagnostic.config (.stackLimit k.stackSize settings.maxStackSize)).withHelp
          "raise GBE_MAX_STACK_SIZE").within place, log⟩
      else
        .ok ({ generation := g, device := device, flavor := flavor, variant := variant,
               simdWidth := if narrow then 8 else width, kernel := k, settings := settings }, log)

/-- Whether the target has a feature. -/
def supports (c : Context) (f : Feature) : Bool := c.generation.supports f

/-- One line about the context. -/
def text (c : Context) : String :=
  s!"{c.generation.name} context {c.variant} for kernel {c.kernel.name} (SIMD{c.simdWidth})"

end Context

end GpuCodegen
