import GpuCodegen.Assembler.Basic
import GpuCodegen.Kernel.Basic

/-!
Flavors of lowering. Generations that are lowered in the same way share a flavor; it decides which
atomics and three-source types exist and how sequences are built.
-/

namespace GpuCodegen

/-- A way of lowering that some generations share. -/
inductive Flavor where
  | gen6
  | gen7
  | gen8
  | chv
  | gen9
  | bxt
  deriving DecidableEq, Repr

namespace Flavor

/-- The flavor of a generation; unlisted generations have none. -/
def ofGeneration? : Generation → Option Flavor
  | .gen6 => some .gen6
  | .gen7 | .gen75 => some .gen7
  | .gen8 => some .gen8
  | .chv => some .chv
  | .gen9 | .kbl => some .gen9
  | .bxt | .glk => some .bxt
  | .unlisted _ => none

/-- The flavor of a generation, or why there is none. -/
def ofGeneration (g : Generation) : Except Diagnostic Flavor :=
  match ofGeneration? g with
  | some f => .ok f
  | none => .error (.unimplemented (.context g))

/-- The name of a flavor. -/
def name : Flavor → String
  | .gen6 => "gen6"
  | .gen7 => "gen7"
  | .gen8 => "gen8"
  | .chv => "chv"
  | .gen9 => "gen9"
  | .bxt => "bxt"

/-- Whether an atomic operation exists. -/
def hasAtomic (f : Flavor) (op : AtomicOp) : Bool :=
  op.isListed &&
    !(f == .gen6 && (op == .reverseSub || op == .unsignedMax || op == .unsignedMin))

/-- Whether the three-source unit takes an element type. -/
def tripleTakes (f : Flavor) (t : Element) : Bool :=
  match f with
  | .gen6 => t == .f
  | .gen7 => t == .f || t == .d || t == .ud
  | _ => t == .f || t == .d || t == .ud || t == .df

/-- Whether address register entries are written four at a time rather than in pairs. -/
def writesAddressQuads : Flavor → Bool
  | .gen8 | .gen9 => true
  | _ => false

end Flavor

end GpuCodegen
